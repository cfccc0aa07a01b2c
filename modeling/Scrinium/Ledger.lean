import Scrinium.Replacement
import Scrinium.RollbackFrame

/-! What the Store is for: a list of live manifests, the last one put first, in which a handle is looked up. -/
namespace Scrinium.Ledger
open Keyed Domain Layout LocalFs SqliteIndex Cas Gc StoreRuns ManifestFiles Replacement Trace
open List hiding after

/- A Put that returns lays its manifest on top, as it is read back, a Delete that returns takes out the one its handle leads to. -/
def record (e : Engine) (s : State) (live : List Manifest) : StoreOp → List Manifest
  | .put cfg call =>
    match (Cas.put e cfg s call).2 with
    | .ok m => reread e m::live.filter fun other => other.digest ≠ m.digest
    | .error _ => live
  | .delete cfg id now =>
    match (Cas.delete e cfg s id now).2,live.find? fun m => m.artifactID = id with
    | .ok _,some m => live.filter fun other => other.digest ≠ m.digest
    | _,_ => live
  | .cycle _ _ _ _ => live

def recordAll (e : Engine) : State → List Manifest → List StoreOp → List Manifest
  | _, live, [] => live
  | s, live, op::ops => recordAll e (advance e s op) (record e s live op) ops

def Stands (e : Engine) (s : State) (m : Manifest) (n : Nat) : Prop :=
  ∃ key row m0, s.index.manifests.lookup key = some row ∧ Filed e s.fs key row m0 ∧ m = read key m0 ∧ row.csn = n

structure Mirrors (e : Engine) (s : State) (live : List Manifest) : Prop where
  settled : Settled e s
  ranked : Stamped.Ranked (Stands e s) live

section
variable {e : Engine} {s s' : State} {live id m key row m0}

theorem loadMirrored (mirrors : Mirrors e s live) :
    load e s id = .ok m ↔ live.find? (fun m => m.artifactID = id) = some m := by
  have stored := mirrors.settled.stored
  cases found : live.find? fun m => m.artifactID = id with
  | none =>
    refine iff_of_false (fun loaded => ?_) nofun
    obtain ⟨key,row,m0,leads,rfl⟩ := (loadOk stored).mp loaded
    have listed := (mirrors.ranked.listed _).mpr ⟨_,key,row,m0,leads.newest.found,leads.filed,rfl,rfl⟩
    exact find?_eq_none.mp found _ listed (decide_eq_true (someSame leads.filed.handle leads.newest.member))
  | some first =>
    obtain ⟨named,_,⟨key,row,m0,held,filed,rfl,rfl⟩,top⟩ := mirrors.ranked.first found
    have handle : row.artifactID = some id := filed.handle.trans (congrArg some (of_decide_eq_true named))
    have led : load e s id = .ok (read key m0) := by
      refine (loadOk stored).mpr ⟨key,row,m0,⟨⟨held,handle,fun {other row'} there member => ?_⟩,filed⟩,rfl⟩
      obtain ⟨m1,filed'⟩ := stored.2 other row' there
      have own := someSame filed'.handle member
      rcases top _ _ ⟨other,row',m1,there,filed',rfl,rfl⟩ (decide_eq_true own) with same | less
      · cases HexText.encodeInjective (congrArg Manifest.digest same)
        cases someSame there held
        exact Nat.le_refl _
      · exact less.le
    rw [led,Except.ok.injEq,Option.some.injEq]

section
variable (stored : Stored e s)
include stored

theorem filedBack (found : s.index.manifests.lookup key = some row)
    (kept : ∀ {old}, Filed e s.fs key row old → Filed e s'.fs key row old) :
    Filed e s'.fs key row m0 ↔ Filed e s.fs key row m0 := by
  refine ⟨fun filed => ?_,kept⟩
  obtain ⟨m1,before⟩ := stored.2 key row found
  rw [filedUnique filed (kept before)]
  exact before

theorem standsSame (rows : s'.index.manifests = s.index.manifests)
    (kept : ∀ {k r old}, Filed e s.fs k r old → Filed e s'.fs k r old) : Stands e s' = Stands e s := by
  funext m n
  simp only [Stands,rows]
  refine propext (exists_congr fun key => exists_congr fun row => exists_congr fun m0 => ?_)
  exact and_congr_right fun found => by rw [filedBack stored found kept]

theorem standsStep (rows : ∀ k, k ≠ key → s'.index.manifests.lookup k = s.index.manifests.lookup k)
    (kept : ∀ {k r old}, k ≠ key → Filed e s.fs k r old → Filed e s'.fs k r old) (other : Manifest) (n : Nat) :
    Stands e s' other n ↔ (∃ row m0, s'.index.manifests.lookup key = some row ∧ Filed e s'.fs key row m0 ∧
      other = read key m0 ∧ row.csn = n) ∨ other.digest ≠ hexOut key ∧ Stands e s other n := by
  constructor
  · rintro ⟨k,r,m1,found,filed,rfl,rfl⟩
    by_cases here : k = key
    · exact .inl ⟨r,m1,here ▸ found,here ▸ filed,here ▸ rfl,rfl⟩
    have held := (rows k here).symm.trans found
    have before := (filedBack stored held (kept here)).mp filed
    exact .inr ⟨fun same => here (HexText.encodeInjective same),k,r,m1,held,before,rfl,rfl⟩
  · rintro (⟨r,m1,found,filed,rest⟩ | ⟨differ,k,r,m1,found,filed,rfl,rfl⟩)
    · exact ⟨key,r,m1,found,filed,rest⟩
    · have away : k ≠ key := fun same => differ (congrArg hexOut same)
      exact ⟨k,r,m1,(rows k away).trans found,kept away filed,rfl,rfl⟩

end

section
variable (mirrors : Mirrors e s live)
include mirrors

theorem rankedEntered (entered : Entered e s s' m key row m0) :
    Stamped.Ranked (Stands e s') (reread e m::live.filter fun other => other.digest ≠ m.digest) := by
  obtain ⟨back,carried,lookup,above,filed,kept⟩ := entered
  have digest : m.digest = hexOut key := (rereadDigest e m).symm.trans (congrArg Manifest.digest back).symm
  rw [← back,digest]
  have there := (lookup key).trans (if_pos rfl)
  refine mirrors.ranked.push (t := row.csn) (fun other n => ?_) (decide_eq_false (not_not.mpr rfl)) ?_
  · rw [standsStep mirrors.settled.stored (fun k away => (lookup k).trans (if_neg away)) (fun _ => kept _ _ _)]
    rw [decide_eq_true_eq]
    refine or_congr_left ⟨?_,?_⟩
    · rintro ⟨row',m1,found,filed',rfl,rfl⟩
      cases someSame found there
      exact ⟨by rw [filedUnique filed' filed],rfl⟩
    · rintro ⟨rfl,rfl⟩
      exact ⟨row,m0,there,filed,rfl,rfl⟩
  · rintro _ _ ⟨k,r,m1,found,_,_,rfl⟩
    exact above k r found

theorem rankedDropped {path} (d : Dropped s s' id key row path) :
    Stamped.Ranked (Stands e s') (live.filter fun other => other.digest ≠ hexOut key) := by
  refine mirrors.ranked.filter fun other n => ?_
  have gone : ¬ ∃ row m1, s'.index.manifests.lookup key = some row ∧ Filed e s'.fs key row m1 ∧
      other = read key m1 ∧ row.csn = n := by
    rintro ⟨_,_,found,_⟩
    exact (droppedHeld d found).1 rfl
  rw [standsStep mirrors.settled.stored (fun k away => (droppedLookup d k).trans (if_neg away)) (filedDropped d),
    or_iff_right gone,decide_eq_true_eq]

theorem standsCycled (complete : Bool) (grace : Nat) (tMark tSweep : Instant) :
    Stands e (runCycle complete grace tMark tSweep s).state = Stands e s := by
  obtain ⟨blobs,index⟩ := (cycled mirrors.settled.placed complete grace tMark tSweep).index
  refine standsSame mirrors.settled.stored (by rw [index]) fun {k r old} filed => ?_
  obtain ⟨path,file,laid,held,rest⟩ := filed.file
  refine ⟨⟨path,file,laid,?_,rest⟩,filed.handle,filed.named,filed.session⟩
  rw [cycleManifests mirrors.settled.placed complete grace tMark tSweep (manifestPathHead laid),held]

theorem mirrorsAdvance (codec : Codec e) (commit : DeletesCommit e) {op} (legible : PutsLegible e s op) :
    Mirrors e (advance e s op) (record e s live op) := by
  have stored := mirrors.settled.stored
  refine ⟨settledAdvance codec commit mirrors.settled legible,?_⟩
  cases op with
  | put cfg call =>
    simp only [advance,record]
    rcases done : Cas.put e cfg s call with ⟨s',err | m⟩
    · simp only [standsSame stored (congrArg Index.manifests (putFailed done)) (filedPut (legiblePut legible) done)]
      exact mirrors.ranked
    · obtain ⟨key,row,m0,entered⟩ := putEntered codec stored legible done
      exact rankedEntered mirrors entered
  | delete cfg id now =>
    simp only [advance,record]
    generalize done : Cas.delete e cfg s id now = pair
    obtain ⟨s',outcome⟩ := pair
    rcases deleteEnds commit done with ⟨rfl,err,rfl⟩ | ⟨rfl,key,row,path,d⟩
    · exact mirrors.ranked
    obtain ⟨m0,filed⟩ := stored.2 key row d.newest.found
    have led : load e s id = .ok (read key m0) := (loadOk stored).mpr ⟨key,row,m0,⟨d.newest,filed⟩,rfl⟩
    simp only [(loadMirrored mirrors).mp led]
    exact rankedDropped mirrors d
  | cycle complete grace tMark tSweep =>
    simp only [advance,record,standsCycled mirrors]
    exact mirrors.ranked

end

/-- After every run of Puts with legible manifests, Deletes and cycles a handle loads the first manifest of that handle in
the list, and nothing where there is none. -/
theorem loadsFromList (codec : Codec e) (commit : DeletesCommit e) (ops : List StoreOp)
    (legible : Along (advance e) (PutsLegible e) emptyStore ops) (id : String) (m : Manifest) :
    load e (after (advance e) emptyStore ops) id = .ok m ↔
      (recordAll e emptyStore [] ops).find? (fun m => m.artifactID = id) = some m := by
  have run : ∀ {s live}, Mirrors e s live → Along (advance e) (PutsLegible e) s ops →
      Mirrors e (after (advance e) s ops) (recordAll e s live ops) := by
    clear legible
    induction ops with
    | nil => exact fun mirrors _ => mirrors
    | cons op ops ih =>
      intro s live mirrors legible
      obtain ⟨first,rest⟩ := alongCons.mp legible
      exact ih (mirrorsAdvance mirrors codec commit first) rest
  refine loadMirrored (run ⟨⟨storedEmpty e,placedEmpty e.topology⟩,⟨fun m => ⟨nofun,?_⟩,.nil⟩⟩ legible)
  rintro ⟨n,key,row,m0,found,_⟩
  simp [emptyStore,Index.empty] at found

end

open Rollback hiding coalescing

theorem deletedShowsOlder :
    load codedEngine (after (advance codedEngine) emptyStore (sharedPuts.map (fun p => .put p.1 p.2) ++
      [.delete Rollback.coalescing "sha256-00000102" 30])) "sha256-00000102" =
      .ok {noted "a" 0 with digest := "000000"} :=
  (loadsFromList (tabledCodec _) (tabledCommit _) _ (by decide +kernel) _ _).mpr (by decide +kernel)

end Scrinium.Ledger
