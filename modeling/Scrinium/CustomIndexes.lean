import Scrinium.ChangeSequence
import Scrinium.Substrate

/-! A custom index with tables of its own, written in the transactions that register and delete a manifest
(index/sqlite/projection.go). -/
namespace Scrinium.CustomIndexes
open Keyed Domain SqliteIndex Substrate Trace Option

structure Indexer where
  index : Tables → Manifest → Except Error Tables
  unindex : Tables → String → Tables

structure Live where
  tx : Index
  tables : Tables
  manifests : Table Key Manifest

def Live.empty : Live := ⟨Index.empty,∅,∅⟩

inductive Op where
  | index (m : Manifest) (path : String) (now : Instant)
  | delete (digest : String)

section
variable (x : Indexer)
def applyOwnIndexer (t : Tables) (m : Manifest) : Except Error Tables := if m.isContainer then .ok t else x.index t m
def applyOwnUnindexer (t : Tables) (artifactID : String) : Tables := if artifactID = "" then t else x.unindex t artifactID

def rowOf (tx : Index) (digest : String) : Option (Key × ManifestRow) :=
  match hexKey digest with
  | .ok (some key) => (tx.manifests.lookup key).map fun row => (key,row)
  | _ => none

def step (σ : Live) : Op → Live
  | .index m path now =>
    match indexManifest [] σ.tx m path now, applyOwnIndexer x σ.tables m, bindKey m.digest with
    | .ok tx,.ok t,.ok key => ⟨tx,t,insertNew key m σ.manifests⟩
    | _,_,_ => σ
  | .delete digest =>
    match deleteManifest [] σ.tx digest, rowOf σ.tx digest with
    | .ok tx,some (key,row) => ⟨tx,applyOwnUnindexer x σ.tables (row.artifactID.getD ""),σ.manifests.erase key⟩
    | _,_ => σ

end

def Lawful (σ : Live) : Op → Prop
  | .index m _ _ => '\x00' ∉ m.artifactID.toList ∧
    ∀ key m', bindKey m.digest = .ok key → σ.manifests.lookup key = some m' → m' = m
  | .delete _ => True

def SameHandle (σ : Live) (m : Manifest) : Prop :=
  '\x00' ∉ m.artifactID.toList ∧ ∀ key m', bindKey m.digest = .ok key → σ.manifests.lookup key = some m' → m'.artifactID = m.artifactID

structure Rowed (σ : Live) : Prop where
  handles : ∀ key, (σ.tx.manifests.lookup key).map (fun row => row.artifactID.getD "") =
    (σ.manifests.lookup key).map Manifest.artifactID
  plain : ∀ {key m}, σ.manifests.lookup key = some m → '\x00' ∉ m.artifactID.toList

section
variable {x σ}
theorem rowedEmpty : Rowed Live.empty := ⟨fun key => by simp [Live.empty,Index.empty],fun found => by simp [Live.empty] at found⟩

variable {m path now}

/-- The manifest that stands at the digest afterwards is the one that stood there, if one did. -/
theorem indexMeets (x : Indexer) (σ : Live) (m : Manifest) (path : String) (now : Instant) :
    step x σ (.index m path now) = σ ∨ ∃ tx t key live m1, step x σ (.index m path now) = ⟨tx,t,live⟩ ∧
      applyOwnIndexer x σ.tables m = .ok t ∧ bindKey m.digest = .ok key ∧
      (∃ r, r.keys.digest = key ∧ tx = register σ.tx m path now r) ∧
      (∀ d, live.lookup d = if d = key then some m1 else σ.manifests.lookup d) ∧
      (∀ m', σ.manifests.lookup key = some m' → m' = m1) ∧ (m1 = m ∨ σ.manifests.lookup key = some m1) := by
  unfold step
  simp only
  split
  · next tx t key done applied bound =>
    obtain ⟨r,possible,rfl⟩ := indexManifestOk.mp done
    have same : r.keys.digest = key := okSame (registrationDigest possible) bound
    refine .inr ⟨_,t,key,_,(σ.manifests.lookup key).getD m,rfl,applied,bound,⟨r,same,rfl⟩,fun d => ?_,?_,?_⟩
    · rw [lookupInsertNew]
    · intro m' held
      rw [held,getD_some]
    · cases held : σ.manifests.lookup key with
      | none => exact .inl rfl
      | some m' => exact .inr rfl
  · exact .inl rfl

theorem lawfulSame (lawful : Lawful σ (.index m path now)) {key m1} (bound : bindKey m.digest = .ok key)
    (stands : m1 = m ∨ σ.manifests.lookup key = some m1) : m1 = m :=
  stands.elim id (lawful.2 key m1 bound)

theorem lawfulHandle (lawful : Lawful σ (.index m path now)) : SameHandle σ m :=
  ⟨lawful.1,fun key m' bound held => congrArg Manifest.artifactID (lawful.2 key m' bound held)⟩

theorem rowedIndex (rowed : Rowed σ) (handle : SameHandle σ m) : Rowed (step x σ (.index m path now)) := by
  rcases indexMeets x σ m path now with same | ⟨tx,t,key,live,m1,next,_,bound,⟨r,rfl,rfl⟩,added,known,stands⟩
  · rw [same]
    exact rowed
  have own : m1.artifactID = m.artifactID := stands.elim (congrArg _) (handle.2 _ m1 bound)
  rw [next]
  refine ⟨fun d => ?_,fun {d m'} found => ?_⟩
  · rw [added,registerLookup]
    have handle := rowed.handles d
    by_cases here : d = r.keys.digest
    · subst here
      cases held : σ.manifests.lookup r.keys.digest with
      | none =>
        have free : σ.tx.manifests.lookup r.keys.digest = none := by simpa [held] using handle
        by_cases headless : m.artifactID = "" <;> simp [free,manifestRow,headless,own]
      | some m' =>
        obtain ⟨row,found,id⟩ := map_eq_some_iff.mp (handle.trans (congrArg _ held))
        cases known m' held
        simp [found,id]
    · simpa [here] using handle
  · rw [added] at found
    split at found
    · cases found
      exact own ▸ handle.1
    · exact rowed.plain found

theorem deleteMeets (rowed : Rowed σ) (digest : String) :
    (step x σ (.delete digest) = σ ∧ ∀ key, hexKey digest = .ok (some key) → σ.manifests.lookup key = none) ∨
      ∃ key m, hexKey digest = .ok (some key) ∧ σ.manifests.lookup key = some m ∧ step x σ (.delete digest) =
        ⟨markPrune (nextCSN (dropManifest σ.tx key)),applyOwnUnindexer x σ.tables m.artifactID,σ.manifests.erase key⟩ := by
  by_cases met : ∃ key row, hexKey digest = .ok (some key) ∧ σ.tx.manifests.lookup key = some row
  · obtain ⟨key,row,bound,found⟩ := met
    have handle := rowed.handles key
    rw [found] at handle
    obtain ⟨m,held,id⟩ := map_eq_some_iff.mp handle.symm
    refine .inr ⟨key,m,bound,held,?_⟩
    have row : rowOf σ.tx digest = some (key,row) := by simp only [rowOf,bound,found,map_some]
    have done : deleteManifest [] σ.tx digest = .ok (markPrune (nextCSN (dropManifest σ.tx key))) := by
      have told : ∀ event, dispatchCustomIndexes [] event = .ok () := fun _ => rfl
      have dropped : ∀ id, applyUnindexers [] id digest = .ok () := fun _ => rfl
      simp only [deleteManifest,bound,bind,Except.bind,found,told,dropped]
      split <;> rfl
    simp only [step,done,row,id]
  · have absent : ∀ key, hexKey digest = .ok (some key) → σ.tx.manifests.lookup key = none := fun key bound =>
      eq_none_iff_forall_ne_some.mpr fun row found => met ⟨key,row,bound,found⟩
    refine .inl ⟨?_,fun key bound => ?_⟩
    · have missing : rowOf σ.tx digest = none := by
        unfold rowOf
        split
        · next key bound => rw [absent key bound,map_none]
        · rfl
      unfold step
      simp only [missing]
      split
      · contradiction
      · rfl
    · have handle := rowed.handles key
      rw [absent key bound,map_none] at handle
      exact map_eq_none_iff.mp handle.symm

theorem rowedDelete (rowed : Rowed σ) (digest : String) : Rowed (step x σ (.delete digest)) := by
  rcases deleteMeets (x := x) rowed digest with ⟨same,_⟩ | ⟨key,m,_,_,next⟩
  · rw [same]
    exact rowed
  rw [next]
  refine ⟨fun d => ?_,fun {d m'} found => ?_⟩
  · have handle := rowed.handles d
    simp only [markPrune,nextCSN,dropManifest,lookupErase]
    split
    · rfl
    · exact handle
  · exact rowed.plain (lookupErased _ found).2

end

end Scrinium.CustomIndexes
