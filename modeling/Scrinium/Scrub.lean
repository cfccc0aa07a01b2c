import Scrinium.CasRead
import Scrinium.IndexQueries

/-! One pass of the scrub agent (agent/scrub over store/data_verify.go): the blobs that are due, then the manifests. -/
namespace Scrinium.Scrub
open Keyed Domain SqliteIndex Cas

structure Columns where
  blobs : Key → Option Nat
  manifests : Key → Option Nat

def columns (tx : Index) : Columns :=
  ⟨fun key => (tx.blobs.lookup key).bind BlobRow.lastVerifiedAt,fun key => (tx.manifests.lookup key).bind ManifestRow.lastVerifiedAt⟩

def unverified (before : Nat) : Option Nat → Bool
  | none => true
  | some at' => at' < before

def older : Option Nat → Option Nat → Bool
  | none,_ => true
  | some _,none => false
  | some a,some b => a ≤ b

def listUnverifiedBlobs (tx : Index) (c : Columns) (before : Instant) : List String :=
  ((tx.blobs.keys.filter fun key => unverified (formatTime before) (c.blobs key)).insertionSort
    fun a b => older (c.blobs a) (c.blobs b) = true).map hexOut

def listUnverifiedManifests (tx : Index) (c : Columns) (before : Instant) : List String :=
  ((tx.manifests.entries.filter fun entry => entry.2.artifactID.isSome && unverified (formatTime before) (c.manifests entry.1)).insertionSort
    fun a b => older (c.manifests a.1) (c.manifests b.1) = true).map fun entry => entry.2.artifactID.getD ""

/- The handles of the manifests that reference a blob, in the order of their digests; a row without one has the empty handle. -/
def consumers (tx : Index) (key : Key) : List String :=
  ((((tx.manifestBlobs.entries.filter fun edge => edge.2 = key).map fun edge => edge.1.1).insertionSort (· ≤ ·)).filterMap
    tx.manifests.lookup).map fun row => row.artifactID.getD ""

def manifestsByBlobRef (tx : Index) (ref : String) : Except Error (List String) := do
  match ← hexKey ref with
  | none => return []
  | some key => return consumers tx key

def stampBlob (c : Columns) (ref : String) (now : Instant) : Columns :=
  {c with blobs := fun key => if hexOut key = ref then some (formatTime now) else c.blobs key}

def stampManifests (tx : Index) (c : Columns) (id : String) (now : Instant) : Columns :=
  {c with manifests := fun key =>
    if (tx.manifests.lookup key).bind ManifestRow.artifactID = some id then some (formatTime now) else c.manifests key}

def stamped (tx : Index) (c : Columns) : Index :=
  { tx with
    blobs := updateAll (fun key row => {row with lastVerifiedAt := c.blobs key}) tx.blobs
    manifests := updateAll (fun key row => {row with lastVerifiedAt := c.manifests key}) tx.manifests }

section
variable (e : Engine) (s : State)
def verifyBlob (m : Manifest) : Except Error Unit :=
  match HexText.decode m.contentHash with
  | none => .error (.other "artifact: decode ContentHash")
  | some want =>
    if m.hashAlgo ≠ e.hasher.name then .error .unsupportedAlgorithm
    else do
      let plaintext ← openBlob e s m
      if e.hasher.sum plaintext = want then return () else throw .corruptedBlob

def firstLoaded : List String → Except Error Manifest
  | [] => .error .artifactNotFound
  | id::rest =>
    match load e s id with
    | .ok m => .ok m
    | .error .artifactNotFound => firstLoaded rest
    | .error err => .error err

def verifyBlobRef (ref : String) : Except Error Unit :=
  if ref = "" then .error .artifactNotFound
  else do
    let m ← firstLoaded e s (← manifestsByBlobRef s.index ref)
    if m.isUser then verifyBlob e s m else throw .artifactNotFound

def verifyManifest (id : String) : Except Error Unit :=
  if id = "" then .error .artifactNotFound else do let _ ← load e s id

end

section

structure Pass where
  columns : Columns
  tick : Nat
  scannedBlobs : Nat
  verifiedBlobs : Nat
  failedBlobs : Nat

variable (e : Engine) (s : State) (clock : Nat → Instant)

section
variable (p : Pass)
def markVerified (ref : String) : Pass := {p with columns := stampBlob p.columns ref (clock p.tick), tick := p.tick + 1}

def markManifestVerified (id : String) : Pass :=
  {p with columns := stampManifests s.index p.columns id (clock p.tick), tick := p.tick + 1}

def stampConsumer (id : String) : Pass :=
  match verifyManifest e s id with
  | .ok () => markManifestVerified s clock p id
  | .error _ => p

def cascadeStampConsumers (ref : String) : Pass :=
  match manifestsByBlobRef s.index ref with
  | .ok ids => ids.foldl (stampConsumer e s clock) p
  | .error _ => p

def blobStep (ref : String) : Pass :=
  let p := {p with scannedBlobs := p.scannedBlobs + 1}
  match verifyBlobRef e s ref with
  | .ok () => cascadeStampConsumers e s clock (markVerified clock {p with verifiedBlobs := p.verifiedBlobs + 1} ref) ref
  | .error .artifactNotFound => p
  | .error _ => {p with failedBlobs := p.failedBlobs + 1}

def manifestStep (id : String) : Pass :=
  match verifyManifest e s id with
  | .ok () => markManifestVerified s clock p id
  | .error .artifactNotFound => p
  | .error _ => {p with failedBlobs := p.failedBlobs + 1}

end

def blobPhase (now : Instant) : Pass :=
  (listUnverifiedBlobs s.index (columns s.index) now).foldl (blobStep e s clock) ⟨columns s.index,0,0,0,0⟩

def verify (now : Instant) : Pass :=
  (listUnverifiedManifests s.index (blobPhase e s clock now).columns now).foldl (manifestStep e s clock) (blobPhase e s clock now)

end

section
variable {e s clock now p}
def Fails (outcome : Except Error Unit) : Prop := outcome ≠ .ok () ∧ outcome ≠ .error .artifactNotFound

theorem stampFailed (p : Pass) (id : String) : (stampConsumer e s clock p id).failedBlobs = p.failedBlobs := by
  unfold stampConsumer
  split <;> rfl

theorem cascadeFailed (p : Pass) (ref : String) : (cascadeStampConsumers e s clock p ref).failedBlobs = p.failedBlobs := by
  unfold cascadeStampConsumers
  split
  · next ids listed =>
    clear listed
    induction ids generalizing p with
    | nil => rfl
    | cons id rest ih => rw [List.foldl_cons,ih,stampFailed]
  · rfl

theorem blobStepFailed (p : Pass) (ref : String) :
    p.failedBlobs ≤ (blobStep e s clock p ref).failedBlobs ∧
      ((blobStep e s clock p ref).failedBlobs = p.failedBlobs → ¬ Fails (verifyBlobRef e s ref)) := by
  unfold blobStep
  split
  · next ok =>
    refine ⟨?_,fun _ fails => fails.1 ok⟩
    simp only [cascadeFailed,markVerified]
    exact Nat.le_refl _
  · next absent => exact ⟨Nat.le_refl _,fun _ fails => fails.2 absent⟩
  · exact ⟨Nat.le_succ _,fun same => absurd same (Nat.succ_ne_self _)⟩

theorem manifestStepFailed (p : Pass) (id : String) :
    p.failedBlobs ≤ (manifestStep e s clock p id).failedBlobs ∧
      ((manifestStep e s clock p id).failedBlobs = p.failedBlobs → ¬ Fails (verifyManifest e s id)) := by
  unfold manifestStep
  split
  · next ok => exact ⟨Nat.le_refl _,fun _ fails => fails.1 ok⟩
  · next absent => exact ⟨Nat.le_refl _,fun _ fails => fails.2 absent⟩
  · exact ⟨Nat.le_succ _,fun same => absurd same (Nat.succ_ne_self _)⟩

theorem foldClean {α : Type} {step : Pass → α → Pass} {bad : α → Prop} (items : List α)
    (counts : ∀ p item, p.failedBlobs ≤ (step p item).failedBlobs ∧ ((step p item).failedBlobs = p.failedBlobs → ¬ bad item))
    (p : Pass) (clean : (items.foldl step p).failedBlobs = 0) : p.failedBlobs = 0 ∧ ∀ item ∈ items, ¬ bad item := by
  induction items generalizing p with
  | nil => exact ⟨clean,nofun⟩
  | cons item rest ih =>
    obtain ⟨zero,later⟩ := ih (step p item) clean
    obtain ⟨grows,fine⟩ := counts p item
    have start : p.failedBlobs = 0 := Nat.le_zero.mp (zero ▸ grows)
    refine ⟨start,fun other mem => ?_⟩
    rcases List.mem_cons.mp mem with rfl | inside
    · exact fine (zero.trans start.symm)
    · exact later other inside

theorem cleanPass (clean : (verify e s clock now).failedBlobs = 0) :
    (∀ ref ∈ listUnverifiedBlobs s.index (columns s.index) now, ¬ Fails (verifyBlobRef e s ref)) ∧
      ∀ id ∈ listUnverifiedManifests s.index (blobPhase e s clock now).columns now, ¬ Fails (verifyManifest e s id) := by
  obtain ⟨zero,manifests⟩ := foldClean _ manifestStepFailed _ clean
  exact ⟨(foldClean _ blobStepFailed _ zero).2,manifests⟩

end

end Scrinium.Scrub
