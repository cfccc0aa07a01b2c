import Scrinium.ManifestRemoval
import Scrinium.ChangeSequence

/-! The rebuild agent's scan of the manifest files (package rebuild) beside the open-time reconciliation. -/
namespace Scrinium.Rebuild
open Keyed Domain Layout LocalFs SqliteIndex Cas Orphanscan Reconciliation IndexCompleteness ManifestCodec ManifestRemoval
open Trace List

abbrev FlagReader := Bytes → Option Bool
def isComposite (flag : FlagReader) (m : Manifest) : Bool := if m.ext = [] then false else (flag m.ext).getD false

inductive Outcome where
  | failed (err : Error)
  | skipped
  | indexed (tx : Index)
  | crashed

def settle : Except Error Index → Outcome
  | .ok tx => .indexed tx
  | .error err => .failed err

def indexBlob (e : Engine) (now : Instant) (tx : Index) (m : Manifest) : Outcome :=
  match m.layout with
  | .target =>
    match m.blobRefs with
    | [] => .crashed
    | ref::_ => settle (do indexManifest e.indexes tx m (← blobPath e.topology .regular ref) now)
  | _ => settle (indexManifest e.indexes tx m "" now)

def decodeWith (lib : Library) (keys : KeyProvider) (data : Bytes) : Except Error Manifest :=
  match keys with
  | some getKeys => decodeEncrypted lib (some getKeys) data
  | none => decode lib data

def readManifest (lib : Library) (keys : KeyProvider) (fs : Fs) (path : String) : Except Error Manifest := do
  let digest ← digestFromManifestPath path
  let data ← readManifestFile fs path
  let m ← decodeWith lib keys data
  return {m with digest := digest}

section
variable (e : Engine) (lib : Library) (keys : KeyProvider) (flag : FlagReader) (now : Instant) (fs : Fs)
def reindexManifestFile (tx : Index) (path : String) : Outcome :=
  match readManifest lib keys fs path with
  | .error err => .failed err
  | .ok m =>
    if m.isContainer || isComposite flag m then .skipped
    else indexBlob e now tx (if m.artifactID = "" then {m with artifactID := m.digest} else m)

structure Scan where
  index : Index
  crashed : Bool

def visit (c : Scan) (path : String) : Scan :=
  if c.crashed then c
  else match reindexManifestFile e lib keys flag now fs c.index path with
    | .indexed tx => {c with index := tx}
    | .crashed => {c with crashed := true}
    | .failed _ => c
    | .skipped => c

def scanManifests (tx : Index) : Scan := (listObjects fs "manifests").foldl (visit e lib keys flag now fs) ⟨tx,false⟩

end

variable {e : Engine} {lib keys flag now fs tx path digest m}

section

def Reads (lib : Library) (keys : KeyProvider) (fs : Fs) (path digest : String) (m : Manifest) : Prop :=
  digestFromManifestPath path = .ok digest ∧
    ∃ file m0, fs.lookup path = some file ∧ decodeEncrypted lib keys file.data = .ok m0 ∧ m = {m0 with digest := digest}

def Headless (flag : FlagReader) (m : Manifest) : Prop := m.isContainer = true ∨ isComposite flag m = true
def Accepted (e : Engine) (m : Manifest) : Prop := ∃ r, registration e.indexes m = .ok r
def Addressed (e : Engine) (m : Manifest) : Prop := ∃ addr, ingestAddr e m = .ok addr

def Taken (e : Engine) (flag : FlagReader) (m : Manifest) : Prop :=
  ¬ Headless flag m ∧ Accepted e m ∧ (m.layout = .target → Addressed e m)

variable {data}

theorem decodeWithIff : decodeWith lib keys data = .ok m ↔ decodeEncrypted lib keys data = .ok m := by
  cases keys with
  | some getKeys => exact Iff.rfl
  | none =>
    simp only [decodeWith,decode,decodeEncrypted]
    split
    · exact Iff.rfl
    cases readHeader lib data with
    | error err => exact Iff.rfl
    | ok header =>
      simp only [bind,Except.bind,decodeUnder]
      by_cases plain : header.1.crypto = .plain
      · simp [plain]
      · simp [plain]

theorem decodedSmall (ok : decodeEncrypted lib keys data = .ok m) : data.length ≤ maxManifestSize := by
  unfold decodeEncrypted at ok
  split at ok
  · cases ok
  · next small => exact Nat.not_lt.mp small

theorem unmarshalledName {body} (ok : unmarshalBodyJSON lib body = .ok m) : m.name = "" := by
  obtain ⟨b,_,rest⟩ := bindOk.mp ok
  split at rest
  · cases rest
  obtain ⟨_,_,rest⟩ := bindOk.mp rest
  obtain ⟨_,_,rest⟩ := bindOk.mp rest
  obtain ⟨_,_,rest⟩ := bindOk.mp rest
  obtain ⟨_,_,rest⟩ := bindOk.mp rest
  obtain ⟨_,_,last⟩ := bindOk.mp rest
  cases last
  rfl

theorem decodedName (ok : decodeEncrypted lib keys data = .ok m) : m.name = "" := by
  unfold decodeEncrypted at ok
  split at ok
  · cases ok
  obtain ⟨⟨header,offset⟩,_,under⟩ := bindOk.mp ok
  simp only [decodeUnder] at under
  split at under
  · exact unmarshalledName under
  split at under
  · cases under
  obtain ⟨candidates,_,rest⟩ := bindOk.mp under
  split at rest
  · cases rest
  unfold decodeEncryptedBody at rest
  split at rest
  · obtain ⟨m0,body,rest⟩ := bindOk.mp rest
    obtain ⟨_,_,rest⟩ := bindOk.mp rest
    obtain ⟨_,_,rest⟩ := bindOk.mp rest
    obtain ⟨_,_,last⟩ := bindOk.mp rest
    cases last
    have nameless : m0.name = "" := unmarshalledName body
    exact nameless
  · obtain ⟨_,_,body⟩ := bindOk.mp rest
    exact unmarshalledName body
  · cases rest

theorem readsIff : readManifest lib keys fs path = .ok m ↔ ∃ digest, Reads lib keys fs path digest m := by
  constructor
  · intro ok
    obtain ⟨digest,parsed,rest⟩ := bindOk.mp ok
    obtain ⟨data,read,rest⟩ := bindOk.mp rest
    obtain ⟨m0,decoded,last⟩ := bindOk.mp rest
    obtain ⟨file,found,rfl,_⟩ := readIff.mp read
    exact ⟨digest,parsed,file,m0,found,decodeWithIff.mp decoded,(Except.ok.inj last).symm⟩
  · rintro ⟨digest,parsed,file,m0,found,decoded,rfl⟩
    refine bindOk.mpr ⟨digest,parsed,bindOk.mpr ⟨file.data,readIff.mpr ⟨file,found,rfl,decodedSmall decoded⟩,?_⟩⟩
    exact bindOk.mpr ⟨m0,decodeWithIff.mpr decoded,rfl⟩

/- Without a name, what has no artifact id is a container, so the scan's fallback for the id is never used. -/
theorem reindexReads (reads : Reads lib keys fs path digest m) :
    reindexManifestFile e lib keys flag now fs tx path =
      if m.isContainer || isComposite flag m then .skipped else indexBlob e now tx m := by
  unfold reindexManifestFile
  rw [readsIff.mpr ⟨digest,reads⟩]
  obtain ⟨_,_,m0,_,decoded,rfl⟩ := reads
  have nameless : m0.name = "" := decodedName decoded
  by_cases known : m0.artifactID = ""
  · simp [Manifest.isContainer,known,nameless]
  · simp [known]

theorem acceptedRef (accepted : Accepted e m) (target : m.layout = .target) :
    ∃ ref rest, m.blobRefs = ref::rest ∧ ref ≠ "" := by
  obtain ⟨r,ok⟩ := accepted
  simp only [registration,blobKeys,bindOk] at ok
  obtain ⟨keys,⟨_,_,bound⟩,_⟩ := ok
  rw [target,if_neg (by decide)] at bound
  cases refs : m.blobRefs with
  | nil =>
    rw [refs] at bound
    cases bound
  | cons ref rest =>
    rw [refs,if_neg (cons_ne_nil ref rest)] at bound
    refine ⟨ref,rest,rfl,?_⟩
    rintro rfl
    obtain ⟨_,_,bound⟩ := bindOk.mp bound
    obtain ⟨_,mapped,_⟩ := bindOk.mp bound
    rw [mapM_cons] at mapped
    obtain ⟨_,empty,_⟩ := bindOk.mp mapped
    cases empty

theorem ingestAddrRef {ref rest} (refs : m.blobRefs = ref::rest) (named : ref ≠ "") :
    ingestAddr e m = blobPath e.topology .regular ref := by
  rw [ingestAddr,Manifest.primaryBlobRef,refs,headD_cons,if_neg named]

theorem registerInline {r} (ok : registration e.indexes m = .ok r) (inline : m.layout = .inline)
    (addr addr' : String) : register tx m addr now r = register tx m addr' now r := by
  have none : r.keys.refs = [] := (registrationRefs ok).mpr inline
  simp only [register,none,registerRefs,foldl_nil]

inductive Reindexed (e : Engine) (flag : FlagReader) (now : Instant) (tx : Index) (m : Manifest) : Outcome → Prop where
  | skipped (headless : Headless flag m) : Reindexed e flag now tx m .skipped
  | crashed (headed : ¬ Headless flag m) (target : m.layout = .target) (refs : m.blobRefs = []) :
      Reindexed e flag now tx m .crashed
  | failed (refs : m.layout = .target → m.blobRefs ≠ []) (refused : ¬ Taken e flag m) (err : Error) :
      Reindexed e flag now tx m (.failed err)
  | indexed {r addr} (taken : Taken e flag m) (ok : registration e.indexes m = .ok r)
      (derived : m.layout = .target → ingestAddr e m = .ok addr) :
      Reindexed e flag now tx m (.indexed (register tx m addr now r))

section
variable (e : Engine) (flag : FlagReader) (now : Instant) (tx : Index)
theorem reindexed (reads : Reads lib keys fs path digest m) :
    Reindexed e flag now tx m (reindexManifestFile e lib keys flag now fs tx path) := by
  rw [reindexReads reads]
  by_cases headless : Headless flag m
  · rw [if_pos (Bool.or_eq_true_iff.mpr headless)]
    exact .skipped headless
  rw [if_neg fun both => headless (Bool.or_eq_true_iff.mp both)]
  unfold indexBlob
  split
  · next target =>
    split
    · next refs => exact .crashed headless target refs
    next ref rest refs =>
    generalize settled : (do indexManifest e.indexes tx m (← blobPath e.topology .regular ref) now) = answer
    cases answer with
    | error err =>
      refine .failed (fun _ => refs ▸ cons_ne_nil ref rest) ?_ err
      rintro ⟨_,accepted,addressed⟩
      obtain ⟨ref',rest',refs',named⟩ := acceptedRef accepted target
      obtain ⟨rfl,rfl⟩ := List.cons.inj (refs.symm.trans refs')
      obtain ⟨addr,derived⟩ := addressed target
      obtain ⟨r,ok⟩ := accepted
      rw [ingestAddrRef refs named] at derived
      have stored : (do indexManifest e.indexes tx m (← blobPath e.topology .regular ref) now) =
          .ok (register tx m addr now r) := bindOk.mpr ⟨addr,derived,indexManifestOk.mpr ⟨r,ok,rfl⟩⟩
      cases settled.symm.trans stored
    | ok tx' =>
      obtain ⟨addr,derived,stored⟩ := bindOk.mp settled
      obtain ⟨r,ok,rfl⟩ := indexManifestOk.mp stored
      obtain ⟨ref',rest',refs',named⟩ := acceptedRef ⟨r,ok⟩ target
      obtain ⟨rfl,rfl⟩ := List.cons.inj (refs.symm.trans refs')
      rw [← ingestAddrRef refs named] at derived
      exact .indexed ⟨headless,⟨r,ok⟩,fun _ => ⟨addr,derived⟩⟩ ok fun _ => derived
  · next other =>
    cases stored : indexManifest e.indexes tx m "" now with
    | error err =>
      refine .failed (fun target => absurd target other) ?_ err
      rintro ⟨_,⟨r,ok⟩,_⟩
      cases stored.symm.trans (indexManifestOk.mpr ⟨r,ok,rfl⟩)
    | ok tx' =>
      obtain ⟨r,ok,rfl⟩ := indexManifestOk.mp stored
      exact .indexed ⟨headless,⟨r,ok⟩,fun target => absurd target other⟩ ok fun target => absurd target other

theorem reindexUnread (unread : ∀ digest m, ¬ Reads lib keys fs path digest m) :
    ∃ err, reindexManifestFile e lib keys flag now fs tx path = .failed err := by
  unfold reindexManifestFile
  cases read : readManifest lib keys fs path with
  | error err => exact ⟨err,rfl⟩
  | ok m =>
    obtain ⟨digest,reads⟩ := readsIff.mp read
    exact absurd reads (unread digest m)

end

theorem readsSame (reads : Reads lib keys fs path digest m) {digest' m'} (again : Reads lib keys fs path digest' m') :
    digest = digest' ∧ m = m' := by
  obtain ⟨parsed,file,m0,found,decoded,rfl⟩ := reads
  obtain ⟨parsed',file',m0',found',decoded',rfl⟩ := again
  cases okSame parsed parsed'
  cases someSame found found'
  cases okSame decoded decoded'
  exact ⟨rfl,rfl⟩

end

section
variable {addr r n}
def Gap (tx : Index) (n : Nat) : Prop := n ≤ tx.csn ∧ ∀ key row, tx.manifests.lookup key = some row → row.csn ≠ n
def Gapless (tx : Index) : Prop := ∀ n, 0 < n → n ≤ tx.csn → ∃ key row, tx.manifests.lookup key = some row ∧ row.csn = n
def Topped (tx : Index) : Prop := 0 < tx.csn → ∃ key row, tx.manifests.lookup key = some row ∧ row.csn = tx.csn

theorem gapRegister (gap : Gap tx n) : Gap (register tx m addr now r) n := by
  refine ⟨Nat.le_succ_of_le gap.1,fun key row found => ?_⟩
  rw [registerLookup] at found
  split at found
  · cases found
    exact Nat.ne_of_gt (Nat.lt_succ_of_le gap.1)
  · exact gap.2 key row found

theorem gapAgain (seq : Sequenced tx) (known : r.keys.digest ∈ tx.manifests) :
    ∃ n, 0 < n ∧ Gap (register tx m addr now r) n := by
  obtain ⟨old,found⟩ := memLookup.mp known
  obtain ⟨positive,issued⟩ := seq.issued found
  refine ⟨old.csn,positive,Nat.le_succ_of_le issued,fun key row stored => ?_⟩
  rw [registerLookup] at stored
  split at stored
  · cases stored
    exact Nat.ne_of_gt (Nat.lt_succ_of_le issued)
  · next other =>
    intro same
    exact other (seq.distinct stored found same)

theorem toppedRegister : Topped (register tx m addr now r) := by
  intro _
  refine ⟨r.keys.digest,_,(registerLookup tx m addr now r r.keys.digest).trans (if_pos rfl),rfl⟩

theorem gaplessRegister (gapless : Gapless tx) (new : r.keys.digest ∉ tx.manifests) :
    Gapless (register tx m addr now r) := by
  intro n positive bound
  rcases Nat.lt_or_eq_of_le bound with earlier | rfl
  · obtain ⟨key,row,found,stamped⟩ := gapless n positive (Nat.le_of_lt_succ earlier)
    have other : key ≠ r.keys.digest := by
      rintro rfl
      exact new (memLookup.mpr ⟨row,found⟩)
    exact ⟨key,row,(registerLookup tx m addr now r key).trans ((if_neg other).trans found),stamped⟩
  · exact toppedRegister (Nat.succ_pos _)

end

section
variable {other key c}
def Crashes (lib : Library) (keys : KeyProvider) (flag : FlagReader) (fs : Fs) (path : String) : Prop :=
  ∃ digest m, Reads lib keys fs path digest m ∧ ¬ Headless flag m ∧ m.layout = .target ∧ m.blobRefs = []

inductive Visited (e : Engine) (lib : Library) (keys : KeyProvider) (flag : FlagReader) (now : Instant) (fs : Fs)
    (c : Scan) (path : String) : Scan → Prop where
  | ceased (ceased : c.crashed = true) : Visited e lib keys flag now fs c path c
  | passed (whole : ¬ Crashes lib keys flag fs path) (left : ∀ digest m, Reads lib keys fs path digest m → ¬ Taken e flag m) :
      Visited e lib keys flag now fs c path c
  | crashed (crashes : Crashes lib keys flag fs path) : Visited e lib keys flag now fs c path {c with crashed := true}
  | indexed {digest m r addr} (whole : ¬ Crashes lib keys flag fs path) (reads : Reads lib keys fs path digest m)
      (taken : Taken e flag m) (ok : registration e.indexes m = .ok r)
      (derived : m.layout = .target → ingestAddr e m = .ok addr)
      (outcome : reindexManifestFile e lib keys flag now fs c.index path = .indexed (register c.index m addr now r)) :
      Visited e lib keys flag now fs c path {c with index := register c.index m addr now r}

theorem takenHolds (taken : Taken e flag m) (target : m.layout = .target) : m.blobRefs ≠ [] := by
  obtain ⟨ref,rest,refs,_⟩ := acceptedRef taken.2.1 target
  rw [refs]
  exact cons_ne_nil ref rest

theorem takenWhole (reads : Reads lib keys fs path digest m) (taken : Taken e flag m) : ¬ Crashes lib keys flag fs path := by
  rintro ⟨_,_,again,_,target,refs⟩
  cases (readsSame again reads).2
  exact takenHolds taken target refs

theorem visitCases {c'} (reached : visit e lib keys flag now fs c path = c') : Visited e lib keys flag now fs c path c' := by
  subst reached
  unfold visit
  split
  · next ceased => exact .ceased ceased
  by_cases read : ∃ digest m, Reads lib keys fs path digest m
  · obtain ⟨digest,m,reads⟩ := read
    have only : ∀ {digest' m'}, Reads lib keys fs path digest' m' → m' = m := fun again => (readsSame again reads).2
    have classified := reindexed e flag now c.index reads
    generalize outcome : reindexManifestFile e lib keys flag now fs c.index path = o at classified
    cases classified with
    | skipped headless =>
      refine .passed ?_ fun _ m' again => ?_
      · rintro ⟨_,m',again,headed,_⟩
        exact headed (only again ▸ headless)
      · rintro ⟨headed,_⟩
        exact headed (only again ▸ headless)
    | crashed headed target refs => exact .crashed ⟨digest,m,reads,headed,target,refs⟩
    | failed refs refused err =>
      refine .passed ?_ fun _ m' again => only again ▸ refused
      rintro ⟨_,m',again,_,target,empty⟩
      cases only again
      exact refs target empty
    | indexed taken ok derived => exact .indexed (takenWhole reads taken) reads taken ok derived outcome
  · have unread : ∀ digest m, ¬ Reads lib keys fs path digest m := fun digest m reads => read ⟨digest,m,reads⟩
    obtain ⟨err,failed⟩ := reindexUnread e flag now c.index unread
    rw [failed]
    refine .passed ?_ fun digest m reads => absurd reads (unread digest m)
    rintro ⟨digest,m,reads,_⟩
    exact unread digest m reads

theorem visitTaken (running : c.crashed = false) (reads : Reads lib keys fs path digest m) (taken : Taken e flag m) :
    ∃ r addr, registration e.indexes m = .ok r ∧ (m.layout = .target → ingestAddr e m = .ok addr) ∧
      visit e lib keys flag now fs c path = {c with index := register c.index m addr now r} := by
  generalize reached : visit e lib keys flag now fs c path = c'
  cases visitCases reached with
  | ceased ceased => simp [ceased] at running
  | passed whole left => exact absurd taken (left digest m reads)
  | crashed crashes => exact absurd crashes (takenWhole reads taken)
  | indexed whole again taken' ok derived outcome =>
    obtain ⟨rfl,rfl⟩ := readsSame again reads
    exact ⟨_,_,ok,derived,rfl⟩

theorem visitCrashed : (visit e lib keys flag now fs c path).crashed = true ↔
    c.crashed = true ∨ Crashes lib keys flag fs path := by
  generalize reached : visit e lib keys flag now fs c path = c'
  cases visitCases reached with
  | ceased ceased => simp [ceased]
  | passed whole left => simp [whole]
  | crashed crashes => simp [crashes]
  | indexed whole reads taken ok derived outcome => simp [whole]

variable {paths : List String}

theorem crashedIff :
    (paths.foldl (visit e lib keys flag now fs) c).crashed = true ↔
      c.crashed = true ∨ ∃ path ∈ paths, Crashes lib keys flag fs path := by
  induction paths generalizing c with
  | nil => simp
  | cons path rest ih => rw [foldl_cons,ih,visitCrashed,exists_mem_cons_iff,or_assoc]

theorem readsDigest (reads : Reads lib keys fs path digest m) : m.digest = digest := by
  obtain ⟨_,_,_,_,_,rfl⟩ := reads
  rfl

theorem visitRows (running : c.crashed = false) :
    key ∈ (visit e lib keys flag now fs c path).index.manifests ↔
      key ∈ c.index.manifests ∨ ∃ digest m, Reads lib keys fs path digest m ∧ Taken e flag m ∧ bindKey digest = .ok key := by
  generalize reached : visit e lib keys flag now fs c path = c'
  cases visitCases reached with
  | ceased ceased => simp [ceased] at running
  | passed whole left =>
    refine ⟨.inl,fun either => either.resolve_right ?_⟩
    rintro ⟨digest,m,reads,taken,_⟩
    exact left digest m reads taken
  | crashed crashes =>
    refine ⟨.inl,fun either => either.resolve_right ?_⟩
    rintro ⟨digest,m,reads,taken,_⟩
    exact takenWhole reads taken crashes
  | @indexed digest m r addr whole reads taken ok derived outcome =>
    have bound := registrationDigest ok
    rw [readsDigest reads] at bound
    refine registerRows.trans ⟨fun either => ?_,fun either => ?_⟩
    · rcases either with rfl | earlier
      · exact .inr ⟨digest,m,reads,taken,bound⟩
      · exact .inl earlier
    · rcases either with earlier | ⟨digest',m',again,_,same⟩
      · exact .inr earlier
      · cases (readsSame again reads).1
        exact .inl (okSame same bound)

section
variable (running : (paths.foldl (visit e lib keys flag now fs) c).crashed = false)
include running
theorem runningBefore : c.crashed = false := by
  rw [Bool.eq_false_iff] at running ⊢
  exact fun ceased => running (crashedIff.mpr (.inl ceased))

theorem scanRows :
    key ∈ (paths.foldl (visit e lib keys flag now fs) c).index.manifests ↔
      key ∈ c.index.manifests ∨
        ∃ path ∈ paths, ∃ digest m, Reads lib keys fs path digest m ∧ Taken e flag m ∧ bindKey digest = .ok key := by
  induction paths generalizing c with
  | nil => simp
  | cons path rest ih =>
    have before := runningBefore running
    rw [foldl_cons] at running ⊢
    rw [ih running,visitRows before,exists_mem_cons_iff,or_assoc]

end

structure Numbered (tx : Index) : Prop where
  seq : Sequenced tx
  topped : Topped tx

theorem scanKeeps {P : Index → Prop} (keeps : ∀ {tx m addr r}, P tx → P (register tx m addr now r)) (held : P c.index)
    (paths : List String) : P (paths.foldl (visit e lib keys flag now fs) c).index := by
  induction paths generalizing c with
  | nil => exact held
  | cons path rest ih =>
    refine ih ?_
    generalize reached : visit e lib keys flag now fs c path = c'
    cases visitCases reached with
    | ceased ceased => exact held
    | passed whole left => exact held
    | crashed crashes => exact held
    | indexed whole reads taken ok derived outcome => exact keeps held

theorem scanNumbered (numbered : Numbered c.index) (paths : List String) :
    Numbered (paths.foldl (visit e lib keys flag now fs) c).index :=
  scanKeeps (fun numbered => ⟨sequencedRegister numbered.seq _ _ _ _,toppedRegister⟩) numbered paths

theorem visitNumbered (numbered : Numbered c.index) (path : String) :
    Numbered (visit e lib keys flag now fs c path).index := scanNumbered numbered [path]

theorem takenAgain (numbered : Numbered c.index) (running : c.crashed = false) (reads : Reads lib keys fs path digest m)
    (taken : Taken e flag m) (bound : bindKey digest = .ok key) (known : key ∈ c.index.manifests) :
    ∃ n, 0 < n ∧ Gap (visit e lib keys flag now fs c path).index n := by
  obtain ⟨r,addr,ok,_,indexed⟩ := visitTaken running reads taken
  have same := registrationDigest ok
  rw [readsDigest reads] at same
  rw [indexed]
  exact gapAgain numbered.seq (okSame bound same ▸ known)

theorem knownTaken (numbered : Numbered c.index)
    (running : (paths.foldl (visit e lib keys flag now fs) c).crashed = false) (mem : path ∈ paths)
    (reads : Reads lib keys fs path digest m) (taken : Taken e flag m) (bound : bindKey digest = .ok key)
    (known : key ∈ c.index.manifests) :
    ∃ n, 0 < n ∧ Gap (paths.foldl (visit e lib keys flag now fs) c).index n := by
  induction paths generalizing c with
  | nil => exact absurd mem not_mem_nil
  | cons next rest ih =>
    have before := runningBefore running
    rw [foldl_cons] at running ⊢
    rcases mem_cons.mp mem with rfl | later
    · obtain ⟨n,positive,gap⟩ := takenAgain numbered before reads taken bound known
      exact ⟨n,positive,scanKeeps (P := fun tx => Gap tx n) gapRegister gap rest⟩
    · exact ih (visitNumbered numbered next) running later ((visitRows before).mpr (.inl known))

theorem takenTwice {m'} (numbered : Numbered c.index)
    (running : (paths.foldl (visit e lib keys flag now fs) c).crashed = false) (apart : path ≠ other)
    (mem : path ∈ paths) (reads : Reads lib keys fs path digest m) (taken : Taken e flag m) (mem' : other ∈ paths)
    (reads' : Reads lib keys fs other digest m') (taken' : Taken e flag m') (bound : bindKey digest = .ok key) :
    ∃ n, 0 < n ∧ Gap (paths.foldl (visit e lib keys flag now fs) c).index n := by
  induction paths generalizing c with
  | nil => exact absurd mem not_mem_nil
  | cons next rest ih =>
    have before := runningBefore running
    rw [foldl_cons] at running ⊢
    rcases mem_cons.mp mem with rfl | later
    · exact knownTaken (visitNumbered numbered path) running (mem_of_ne_of_mem apart.symm mem') reads' taken' bound
        ((visitRows before).mpr (.inr ⟨digest,m,reads,taken,bound⟩))
    · rcases mem_cons.mp mem' with rfl | later'
      · exact knownTaken (visitNumbered numbered other) running later reads taken bound
          ((visitRows before).mpr (.inr ⟨digest,m',reads',taken',bound⟩))
      · exact ih (visitNumbered numbered next) running later later'

end

end Scrinium.Rebuild
