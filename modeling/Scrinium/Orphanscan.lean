import Scrinium.CasRead

/-! The open-time reconciliation of the manifests on the Location with the index. -/
namespace Scrinium.Orphanscan
open Keyed Domain Layout LocalFs SqliteIndex Cas Trace List

structure Faults where
  list : String → Option Error
  cancelled : String → Option Error
  probe : String → Option Error
  ingest : String → Option Error
  remove : String → Option Error

def Faults.none : Faults := ⟨fun _ => .none,fun _ => .none,fun _ => .none,fun _ => .none,fun _ => .none⟩

inductive PassError where
  | stagingRemove (path : String) (err : Error)
  | manifestsParse (err : Error)
  | manifestsExists (digest : String) (err : Error)
  | noIngester (digest : String)
  | fragmentRemove (path : String) (err : Error)
  | ingest (digest : String) (err : Error)
  deriving DecidableEq

structure OrphanReport where
  stagingRemoved : Nat
  manifestsRemoved : Nat
  manifestsIndexed : Nat
  errors : List PassError
  deriving DecidableEq

structure Pass where
  state : State
  report : OrphanReport

def Pass.start (s : State) : Pass := ⟨s,⟨0,0,0,[]⟩⟩

def Pass.fail (p : Pass) (err : PassError) : Pass :=
  {p with report := {p.report with errors := p.report.errors ++ [err]}}

abbrev Ingester := Fs → Index → (digest : String) → Except Error Index
def stagingPrefix : String := ".staging"

def walk (f : Faults) (cb : Pass → String → Pass) : List String → Pass → Pass × Option Error
  | [], p => (p,none)
  | path::rest, p =>
    match f.cancelled path with
    | some err => (p,some err)
    | none => walk f cb rest (cb p path)

def listWalk (f : Faults) (cb : Pass → String → Pass) (dir : String) (p : Pass) : Pass × Option Error :=
  match f.list dir with
  | some err => (p,some err)
  | none => walk f cb (listObjects p.state.fs dir) p

def sweepStaging (f : Faults) (p : Pass) (path : String) : Pass :=
  match f.remove path with
  | some err => p.fail (.stagingRemove path err)
  | none =>
    { state := {p.state with fs := remove p.state.fs path}
      report := {p.report with stagingRemoved := p.report.stagingRemoved + 1} }

def existsByDigest (f : Faults) (tx : Index) (digest : String) : Except Error Bool :=
  match f.probe digest with
  | some err => .error err
  | none => manifestExistsByDigest tx digest

def examine (f : Faults) (ing : Option Ingester) (p : Pass) (path : String) : Pass :=
  match digestFromManifestPath path with
  | .error err => p.fail (.manifestsParse err)
  | .ok digest =>
    match existsByDigest f p.state.index digest with
    | .error err => p.fail (.manifestsExists digest err)
    | .ok true => p
    | .ok false =>
      match ing with
      | none => p.fail (.noIngester digest)
      | some ing =>
        match ing p.state.fs p.state.index digest with
        | .ok tx =>
          { state := {p.state with index := tx}
            report := {p.report with manifestsIndexed := p.report.manifestsIndexed + 1} }
        | .error .corruptedManifest =>
          match f.remove path with
          | some err => p.fail (.fragmentRemove path err)
          | none =>
            { state := {p.state with fs := remove p.state.fs path}
              report := {p.report with manifestsRemoved := p.report.manifestsRemoved + 1} }
        | .error err => p.fail (.ingest digest err)

def reconcile (f : Faults) (ing : Option Ingester) (s : State) : Pass × Option Error :=
  match listWalk f (sweepStaging f) stagingPrefix (Pass.start s) with
  | (p,some err) => (p,some err)
  | (p,none) => listWalk f (examine f ing) "manifests" p

def ingestAddr (e : Engine) (m : Manifest) : Except Error String :=
  if m.primaryBlobRef = "" then .ok "" else blobPath e.topology .regular m.primaryBlobRef

def ingestManifest (e : Engine) (now : Instant) (fs : Fs) (tx : Index) (digest : String) : Except Error Index := do
  let m ← loadManifestByDigest e fs digest
  let addr ← ingestAddr e m
  indexManifest e.indexes tx m addr now

def storeIngester (e : Engine) (f : Faults) (now : Instant) : Ingester := fun fs tx digest =>
  match f.ingest digest with
  | some err => .error err
  | none => ingestManifest e now fs tx digest

section
variable {path digest segment}
theorem parsedShape (parsed : digestFromManifestPath path = .ok digest) : validateRefShape digest = .ok () := by
  obtain ⟨last,_,rest⟩ := bindOk.mp parsed
  obtain ⟨_,shape,same⟩ := bindOk.mp rest
  cases same
  exact shape

theorem keyOfShape {bound} (shape : validateRefShape digest = .ok ()) (hex : hexKey digest = .ok bound) :
    ∃ key, bound = some key ∧ hexOut key = digest := by
  unfold hexKey at hex
  split at hex
  · next empty =>
    subst empty
    cases shape
  · split at hex
    · next key decoded => exact ⟨key,(Except.ok.inj hex).symm,HexText.encodeDecode decoded (refShape.mp shape).2⟩
    · cases hex

theorem existsByDigestOk {f tx known} (shape : validateRefShape digest = .ok ())
    (ok : existsByDigest f tx digest = .ok known) :
    f.probe digest = none ∧ ∃ key, bindKey digest = .ok key ∧ hexOut key = digest ∧ known = decide (key ∈ tx.manifests) := by
  unfold existsByDigest at ok
  split at ok
  · cases ok
  next sound =>
  obtain ⟨bound,hex,asked⟩ := bindOk.mp ok
  obtain ⟨key,rfl,spelled⟩ := keyOfShape shape hex
  cases asked
  exact ⟨sound,key,bindKeyOk.mpr hex,spelled,rfl⟩

theorem segmentChar {sep c} {chars : List Char} (split : segment ∈ chars.splitOn sep) (mem : c ∈ segment) :
    c ∈ chars := by
  induction chars generalizing segment with
  | nil =>
    rw [splitOn_nil,mem_singleton] at split
    exact absurd (split ▸ mem) not_mem_nil
  | cons first rest ih =>
    rw [splitOn_cons_eq_if_modifyHead] at split
    split at split
    · rcases mem_cons.mp split with rfl | later
      · exact absurd mem not_mem_nil
      · exact mem_cons_of_mem first (ih later mem)
    cases segments : rest.splitOn sep with
    | nil => exact absurd segments (splitOn_ne_nil sep rest)
    | cons head others =>
      rw [segments,modifyHead_cons] at split
      rcases mem_cons.mp split with rfl | later
      · rcases mem_cons.mp mem with rfl | inside
        · exact mem_cons_self
        · exact mem_cons_of_mem first (ih (segments ▸ mem_cons_self) inside)
      · exact mem_cons_of_mem first (ih (segments ▸ mem_cons_of_mem head later) mem)

theorem dotlessVisible (plain : '.' ∉ segment) : isHidden segment = false := by
  rw [isHidden,Bool.or_eq_false_iff,Bool.and_eq_false_iff]
  constructor
  · rw [Bool.eq_false_iff]
    intro ends
    exact plain ((isSuffixOf_iff_suffix.mp ends).subset (by decide))
  · refine .inl (Bool.eq_false_iff.mpr fun starts => ?_)
    exact plain (( isPrefixOf_iff_prefix.mp starts).subset (by decide))

theorem manifestListed (shape : validateRefShape digest = .ok ()) (built : manifestPath digest = .ok path) :
    underDir "manifests" path = true := by
  obtain ⟨s1,s2,shards,rfl⟩ := manifestPathForm built
  obtain ⟨plain1,plain2⟩ := dotlessShards shape shards
  have plain : dotless ("manifests/" ++ s1 ++ "/" ++ s2 ++ "/" ++ digest) = true := by
    have root : dotless "manifests/" = true := rfl
    have slash : dotless "/" = true := rfl
    simp [dotlessAppend,root,slash,plain1,plain2,dotlessRef shape]
  rw [underDir,Bool.and_eq_true]
  constructor
  · have front : ("manifests" ++ "/" : String) = "manifests/" := rfl
    simp [front]
  · refine all_eq_true.mpr fun segment split => ?_
    rw [dotlessVisible fun dot => ?_]
    · rfl
    · have inside := mem_of_mem_drop (segmentChar split dot)
      exact absurd (all_eq_true.mp plain '.' inside) (by decide)

end

section
variable {f ing p path}
inductive Examined (f : Faults) (ing : Ingester) (p : Pass) (path : String) : Pass → Prop where
  | noted (err) : Examined f ing p path (p.fail err)
  | known {digest key} (parsed : digestFromManifestPath path = .ok digest) (spelled : hexOut key = digest)
      (mem : key ∈ p.state.index.manifests) : Examined f ing p path p
  | ingested {digest key tx} (parsed : digestFromManifestPath path = .ok digest) (sound : f.probe digest = none)
      (bound : bindKey digest = .ok key) (spelled : hexOut key = digest) (new : key ∉ p.state.index.manifests)
      (read : ing p.state.fs p.state.index digest = .ok tx) :
      Examined f ing p path
        { state := {p.state with index := tx}
          report := {p.report with manifestsIndexed := p.report.manifestsIndexed + 1} }
  | removed {digest key} (parsed : digestFromManifestPath path = .ok digest) (sound : f.probe digest = none)
      (bound : bindKey digest = .ok key) (spelled : hexOut key = digest) (new : key ∉ p.state.index.manifests)
      (fragment : ing p.state.fs p.state.index digest = .error .corruptedManifest) (gone : f.remove path = none) :
      Examined f ing p path
        { state := {p.state with fs := remove p.state.fs path}
          report := {p.report with manifestsRemoved := p.report.manifestsRemoved + 1} }

theorem examined {p'} (reached : examine f (some ing) p path = p') : Examined f ing p path p' := by
  subst reached
  unfold examine
  split
  · exact .noted _
  next digest parsed =>
  split
  · exact .noted _
  · next asked =>
    obtain ⟨_,key,_,spelled,known⟩ := existsByDigestOk (parsedShape parsed) asked
    exact .known parsed spelled (of_decide_eq_true known.symm)
  · next asked =>
    obtain ⟨sound,key,bound,spelled,unknown⟩ := existsByDigestOk (parsedShape parsed) asked
    have new := of_decide_eq_false unknown.symm
    simp only
    split
    · next read => exact .ingested parsed sound bound spelled new read
    · next fragment =>
      split
      · exact .noted _
      · next gone => exact .removed parsed sound bound spelled new fragment gone
    · exact .noted _

theorem examineUnknown {digest key} (parsed : digestFromManifestPath path = .ok digest)
    (sound : f.probe digest = none) (bound : bindKey digest = .ok key) (new : key ∉ p.state.index.manifests) :
    examine f (some ing) p path =
      match ing p.state.fs p.state.index digest with
      | .ok tx =>
        { state := {p.state with index := tx}
          report := {p.report with manifestsIndexed := p.report.manifestsIndexed + 1} }
      | .error .corruptedManifest =>
        match f.remove path with
        | some err => p.fail (.fragmentRemove path err)
        | none =>
          { state := {p.state with fs := remove p.state.fs path}
            report := {p.report with manifestsRemoved := p.report.manifestsRemoved + 1} }
      | .error err => p.fail (.ingest digest err) := by
  have asked : existsByDigest f p.state.index digest = .ok false := by
    simp only [existsByDigest,sound,manifestExistsByDigest,bindKeyOk.mp bound,bind,Except.bind,decide_eq_false new]
    rfl
  rw [examine,parsed]
  simp only [asked]

theorem walkFold (cb : Pass → String → Pass) (paths : List String) (p : Pass) :
    (walk f cb paths p).1 = (paths.takeWhile fun path => (f.cancelled path).isNone).foldl cb p := by
  induction paths generalizing p with
  | nil => rfl
  | cons path rest ih =>
    rw [walk]
    cases cut : f.cancelled path with
    | some err => simp [cut]
    | none =>
      simp only [takeWhile_cons,cut,Option.isNone_none,if_true,foldl_cons]
      exact ih (cb p path)

theorem walkDone {cb paths p p'} (done : walk f cb paths p = (p',none)) : p' = paths.foldl cb p := by
  induction paths generalizing p with
  | nil => exact (Prod.mk.inj done).1.symm
  | cons path rest ih =>
    rw [walk] at done
    split at done
    · cases done
    · exact ih done

end

end Scrinium.Orphanscan
