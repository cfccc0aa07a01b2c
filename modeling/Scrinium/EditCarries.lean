import Scrinium.Edits

/-! What an edit that names only the path or some attributes leaves of the rest of the artifact. -/
namespace Scrinium.Fsops
open Domain Cas Projection Vfsmeta Readback Replacement Trace
open ManifestFiles Pipeline StoreRuns

def Edit.amend (fs : FileSystem) : Edit → FileSystem
  | .setattr attrs => setAttrs fs attrs
  | .rename newPath => {fs with path := newPath}
  | _ => fs

def Edit.namesOnly : Edit → Bool
  | .setattr _ | .rename _ => true
  | _ => false

structure Carries (o : Ops) (s' : State) (before manifest : Manifest) (fs : FileSystem) (content : Bytes) : Prop where
  ext : ∀ name, name ≠ key → pocketGet o.json manifest.ext name = pocketGet o.json before.ext name
  block : Vfsmeta.block o.json manifest.ext = some fs
  usr : manifest.usr = before.usr
  refs : manifest.handleRefs = before.handleRefs
  retention : manifest.retentionUntil = before.retentionUntil
  bytes : openBlob o.engine s' manifest = .ok content

/- Nothing there to be lost: a block and no more, which the View has as the Store does, and bytes that are stored again
readably. -/
def Carriable (o : Ops) (σ : Mounted) (path : String) (before : Manifest) (fs : FileSystem) (content : Bytes) (d : Draw) (edit : Edit) :
    Prop :=
  if newID o content d = idAt o σ path then edit.amend fs = fs
  else (∀ name, name ≠ key → pocketGet o.json before.ext name = .ok none) ∧ before.usr = [] ∧ before.handleRefs = [] ∧
    before.retentionUntil = none ∧ edit.block path (blockAt o σ path) = edit.amend fs ∧ HitReads o.engine o.cfg σ.store content

section
variable {o σ σ' f d ext s1 m manifest before path fs content} {edit : Edit}
theorem namesBytes (names : edit.namesOnly = true) : edit.bytes o content = content := by
  cases edit with
  | write append touches => cases names
  | truncate size => cases names
  | setattr attrs => rfl
  | rename newPath => rfl

theorem stagedDirty (names : edit.namesOnly = true) (ready : staged o σ path edit = .ok f) : (f.dirty || f.forceDirty) = true := by
  cases edit with
  | write append touches => cases names
  | truncate size => cases names
  | setattr attrs =>
    simp only [staged,setattr] at ready
    split at ready
    · cases ready
    · obtain ⟨_,_,rest⟩ := bindOk.mp ready
      cases rest
      exact Bool.or_true _
  | rename newPath =>
    obtain ⟨_,_,rest⟩ := bindOk.mp ready
    obtain ⟨_,_,rest⟩ := bindOk.mp rest
    cases rest
    exact Bool.or_true _

theorem writtenCarries (trusted : Trusted o) (written : Written o.engine o.cfg (putCall o content ext d) m)
    {asked} (embedded : embed o.json [] asked = .ok ext)
    (read : ∃ ext usr, reread o.engine m = {ManifestCodec.carried m ext usr with digest := m.digest}) :
    Carries o s1 before (reread o.engine m) fs content ↔
      (∀ name, name ≠ key → pocketGet o.json before.ext name = .ok none) ∧ before.usr = [] ∧ before.handleRefs = [] ∧
        before.retentionUntil = none ∧ asked = fs ∧ openBlob o.engine s1 m = .ok content := by
  obtain ⟨body,_,_,pocket⟩ := embedPocket trusted.faithful embedded
  have others : ∀ name, name ≠ key → pocketGet o.json (reread o.engine m).ext name = .ok none := by
    intro name other
    refine trusted.pockets m name ?_
    rw [written.ext]
    exact (pocket name).trans (by rw [if_neg other])
  have block : Vfsmeta.block o.json (reread o.engine m).ext = some asked := by
    rw [trusted.block,written.ext]
    exact embedBlock trusted.faithful embedded
  have usr : (reread o.engine m).usr = [] := trusted.usr m written.usr
  have rest : (reread o.engine m).handleRefs = [] ∧ (reread o.engine m).retentionUntil = none ∧
      openBlob o.engine s1 (reread o.engine m) = openBlob o.engine s1 m := by
    obtain ⟨ext,usr,same⟩ := read
    rw [same]
    exact ⟨written.refs,congrArg (Option.map ManifestCodec.wholeSeconds) written.retention,rfl⟩
  obtain ⟨refs,retention,same⟩ := rest
  rw [← same]
  constructor
  · intro c
    refine ⟨fun name other => (c.ext name other).symm.trans (others name other),c.usr.symm.trans usr,c.refs.symm.trans refs,
      c.retention.symm.trans retention,?_,c.bytes⟩
    exact someSame block c.block
  · rintro ⟨bare,noUsr,noRefs,free,rfl,bytes⟩
    exact ⟨fun name other => (others name other).trans (bare name other).symm,block,usr.trans noUsr.symm,refs.trans noRefs.symm,
      retention.trans free.symm,bytes⟩

end

def stampedMounted : Mounted :=
  ⟨after (advance (tabled sampleFiles)) emptyStore
     [.put (sampleMount .unique).cfg {Readback.sampleCall "u" 1 10 with ext := [8,1], usr := [5]}],
   after (perform (sampleMount .unique).setup) (initTrees (sampleMount .unique).setup)
     [.add {smallFile "sha256-0000010201" [1] "" 10 [8,1] with usr := [5]}],[]⟩

end Scrinium.Fsops
