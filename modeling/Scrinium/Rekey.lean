import Scrinium.CryptoState
import Scrinium.ReplicaRepair

/-! Rewriting the descriptor under a new passphrase, with cell writes that fail. -/
namespace Scrinium.Rekey
open List hiding after
open Keyed Domain LocalFs Pipeline Named CryptoState
open StoreDescriptor Keyring Trace

structure Host where
  codec : Codec
  keys : Keyring.Primitives
  hasher : Hasher
  registry : HashRegistry
  known : registry hashSHA256 = some hasher

def Host.canonicalHashes (x : Host) : HashRegistry := fun algo => if algo = hashSHA256 then some x.hasher else none

structure Session where
  desc : Descriptor
  dek : Bytes
  unlocked : Bool
  deriving DecidableEq

def nextSequence (n : Nat) : Nat := (n + 1) % 2 ^ 64

section
variable (x : Host) (s : Session)
def setPassphrase (cost : Cost) (answer : Option Bytes) (draw : Draw) : Except KeyFault Descriptor :=
  if s.desc.dekEncrypted then .error .passphraseAlreadySet
  else if s.dek = [] then .error .storeCorrupted
  else do
    let passphrase ← callProvider true answer
    let (wrapped,params) ← wrapDEK x.keys s.dek passphrase cost draw
    return { s.desc with
      sequence := nextSequence s.desc.sequence, dek := wrapped, dekEncrypted := true, kdfParams := some params }

def rotateKEK (current new : Option Bytes) (draw : Draw) : Except KeyFault Descriptor :=
  if !s.desc.dekEncrypted then .error .passphraseRequired
  else match s.desc.kdfParams with
    | none => .error .storeCorrupted
    | some params => do
      let verified ← unwrapDEK x.keys s.desc.dek params (← callProvider true current)
      if verified ≠ s.dek then .error .storeCorrupted
      else
        let passphrase ← callProvider true new
        let (wrapped,params) ← wrapDEK x.keys s.dek passphrase (costOf params) draw
        return {s.desc with sequence := nextSequence s.desc.sequence, dek := wrapped, kdfParams := some params}

end

inductive Outcome where
  | done
  | refused
  | lost
  | cut
  | cutAfter
  deriving DecidableEq

def Outcome.effective : Outcome → Bool
  | .done | .lost | .cutAfter => true
  | .refused | .cut => false

inductive Result where
  | ok
  | failed
  | crashed
  deriving DecidableEq

def Outcome.result : Outcome → Result
  | .done => .ok
  | .refused | .lost => .failed
  | .cut | .cutAfter => .crashed

def attempt (o : Outcome) (written : Except Halt Fs) (fs : Fs) : Fs × Result :=
  match written with
  | .error _ => (fs,.failed)
  | .ok fs' => (if o.effective then fs' else fs,o.result)

section
variable (x : Host)

/- descriptor.WriteBoth under an outcome for each of its writes. -/
def writeBoth (o : Outcome × Outcome) (d : Descriptor) (now : Instant) (fs : Fs) : Fs × Result :=
  match marshal x.codec d with
  | .error _ => (fs,.failed)
  | .ok data =>
    match attempt o.1 (writeReplicaCell x.codec (some x.canonicalHashes) name data now fs) fs with
    | (fs,.ok) => attempt o.2 (writeReplicaCell x.codec (some x.canonicalHashes) backupName data now fs) fs
    | halted => halted

/- loadCanonicalDescriptor under an outcome for its heal. -/
def load (o : Outcome) (now : Instant) (fs : Fs) : Fs × Option Descriptor :=
  match readBoth x.codec (some x.registry) fs with
  | .error _ => (fs,none)
  | .ok (l0,l1) =>
    match reconcile l0 l1 with
    | .error _ => (fs,none)
    | .ok (d,.healNone) => (fs,some d)
    | .ok (d,action) =>
      match attempt o (healReplicas x.codec (some x.registry) d now fs action) fs with
      | (fs,.ok) => (fs,some d)
      | (fs,_) => (fs,none)

def bringUp (answer : Option Bytes) (d : Descriptor) : Session :=
  if !d.dekEncrypted then ⟨d,d.dek,true⟩
  else match d.kdfParams, callProvider true answer with
    | some params, .ok passphrase =>
      match unwrapDEK x.keys d.dek params passphrase with
      | .ok dek => ⟨d,dek,true⟩
      | .error _ => ⟨d,[],false⟩
    | _, _ => ⟨d,[],false⟩

structure World where
  fs : Fs
  session : Option Session
  supplied : List Bytes

inductive Event where
  | setPassphrase (cost : Cost) (answer : Option Bytes) (draw : Draw) (faults : Outcome × Outcome) (now : Instant)
  | rotateKEK (current new : Option Bytes) (draw : Draw) (faults : Outcome × Outcome) (now : Instant)
  | crash
  | openStore (answer : Option Bytes) (heal : Outcome) (now : Instant)

/- commitDescriptor: the memory follows a write that was reported done. -/
def commit (w : World) (s : Session) (next : Descriptor) (faults : Outcome × Outcome) (now : Instant) : World :=
  match writeBoth x faults next now w.fs with
  | (fs,.ok) => {w with fs := fs, session := some {s with desc := next}}
  | (fs,.failed) => {w with fs := fs}
  | (fs,.crashed) => {w with fs := fs, session := none}

def rekey (w : World) (call : Session → Except KeyFault Descriptor) (faults : Outcome × Outcome) (now : Instant) :
    World :=
  match w.session with
  | none => w
  | some s =>
    if !s.unlocked then w
    else match call s with
      | .error _ => w
      | .ok next => commit x w s next faults now

def step (w : World) : Event → World
  | .setPassphrase cost answer draw faults now =>
    rekey x {w with supplied := answer.toList ++ w.supplied} (setPassphrase x · cost answer draw) faults now
  | .rotateKEK current new draw faults now =>
    rekey x {w with supplied := new.toList ++ w.supplied} (rotateKEK x · current new draw) faults now
  | .crash => {w with session := none}
  | .openStore answer heal now =>
    if w.session ≠ none then w
    else match load x heal now w.fs with
      | (fs,none) => {w with fs := fs}
      | (fs,some d) => {w with fs := fs, session := some (bringUp x answer d)}

end

variable {fs fs' d next now}

section
variable {x r o result}
theorem faultless (x : Host) (d : Descriptor) (now : Instant) (fs : Fs) :
    writeBoth x (.done,.done) d now fs =
      match StoreDescriptor.writeBoth x.codec (some x.canonicalHashes) d now fs with
      | (fs,none) => (fs,.ok)
      | (fs,some _) => (fs,.failed) := by
  unfold writeBoth StoreDescriptor.writeBoth
  cases marshal x.codec d with
  | error err => rfl
  | ok data =>
    cases first : writeReplicaCell x.codec (some x.canonicalHashes) name data now fs with
    | error halt => simp [attempt,first]
    | ok fs' =>
      cases second : writeReplicaCell x.codec (some x.canonicalHashes) backupName data now fs' with
      | error halt => simp [attempt,Outcome.effective,Outcome.result,first,second]
      | ok fs'' => simp [attempt,Outcome.effective,Outcome.result,first,second]

def Shows (x : Host) (fs : Fs) (r : Replica) (d : Descriptor) : Prop :=
  ∀ reading, readReplica x.codec (some x.registry) fs r = .ok reading → reading = .valid d

theorem writtenShows (restates : Restates x.codec x.hasher) (dated : now < year10000) {registry data}
    (known : registry hashSHA256 = some x.hasher) (marshalled : marshal x.codec d = .ok data)
    (wrote : writeReplicaCell x.codec (some registry) r.name data now fs = .ok fs') :
    Shows x fs' r d ∧ ∀ d', Shows x fs r.other d' → Shows x fs' r.other d' := by
  obtain ⟨body,built,rfl⟩ := writtenCell wrote
  obtain ⟨registry',hasher,same,knows,made⟩ := builtBody built
  cases same
  cases someSame known knows
  constructor
  · intro reading read
    rw [writtenReads restates x.known dated fs marshalled made] at read
    split at read
    · exact (Except.ok.inj read).symm
    · cases read
  · intro d' shows reading read
    refine shows reading ((readReplicaCongr ?_).symm.trans read)
    rw [LocalFs.put,lookupInsert,if_neg cellsApart]

def Clean (o : Outcome × Outcome) : Prop := o.1.effective = false ∨ (o.1 = .done ∧ o.2.effective = true)

inductive Wrote (x : Host) (o : Outcome × Outcome) (next : Descriptor) (fs fs' : Fs) (result : Result) : Prop where
  | neither (same : fs' = fs) (short : result ≠ .ok)
  | first (some' : next.sequence ≠ 0) (shows : Shows x fs' .l0 next) (frame : ∀ d', Shows x fs .l1 d' → Shows x fs' .l1 d') (short : result ≠ .ok)
      (torn : ¬ Clean o)
  | both (some' : next.sequence ≠ 0) (shows : ∀ r, Shows x fs' r next)

theorem validSequence (valid : validate d = .ok ()) : d.sequence ≠ 0 := by
  intro zero
  unfold validate at valid
  split at valid
  · cases valid
  split at valid
  · cases valid
  split at valid
  · cases valid
  cases valid

theorem wroteBoth (restates : Restates x.codec x.hasher) (dated : now < year10000) (wrote : writeBoth x o next now fs = (fs',result)) :
    Wrote x o next fs fs' result := by
  have canonical : x.canonicalHashes hashSHA256 = some x.hasher := if_pos rfl
  unfold writeBoth at wrote
  split at wrote
  · cases wrote
    exact .neither rfl (by simp)
  next data marshalled =>
    obtain ⟨valid,indented⟩ := marshalOk.mp marshalled
    have some' := validSequence valid
    obtain ⟨body,_,first⟩ := writeReplicaCellOk restates canonical dated fs .l0 indented
    obtain ⟨here,frame⟩ := writtenShows restates dated canonical marshalled first
    obtain ⟨body',_,second⟩ :=
      writeReplicaCellOk restates canonical dated (LocalFs.put fs (cellFile Replica.l0.name) body now) .l1 indented
    obtain ⟨there,back⟩ := writtenShows restates dated canonical marshalled second
    simp only [Replica.name] at first second
    obtain ⟨o0,o1⟩ := o
    -- The second cell is written only after the first was reported done.
    rw [first] at wrote
    cases o0 with
    | refused | cut =>
      cases wrote
      exact .neither rfl (by simp [Outcome.result])
    | lost | cutAfter =>
      cases wrote
      exact .first some' here frame (by simp [Outcome.result]) (by simp [Clean,Outcome.effective])
    | done =>
      simp only [attempt,Outcome.effective,if_true,Outcome.result,second] at wrote
      cases o1 with
      | refused | cut =>
        cases wrote
        exact .first some' here frame (by simp) (by simp [Clean,Outcome.effective])
      | done | lost | cutAfter =>
        cases wrote
        refine .both some' fun r => ?_
        cases r with
        | l0 => exact back next here
        | l1 => exact there

end

variable {a b}

section
variable {x}
def Ordered (a b : Descriptor) : Prop := a = b ∨ a.sequence = b.sequence + 1

theorem reconcileOrdered {l0 l1} (first : l0 = .valid a) (second : l1 = .valid b) (ordered : Ordered a b) :
    (a = b ∧ reconcile l0 l1 = .ok (a,.healNone)) ∨ reconcile l0 l1 = .ok (a,.healBothFromL0) := by
  subst first second
  rcases ordered with same | ahead
  · exact .inl ⟨same,if_pos same⟩
  right
  have apart : a ≠ b := by
    rintro rfl
    omega
  have above : b.sequence < a.sequence := by omega
  simp only [reconcile,if_neg apart,if_pos above]

theorem opensInOrder (now : Instant) (first : Shows x fs .l0 a) (second : Shows x fs .l1 b) (ordered : Ordered a b) :
    loadCanonicalDescriptor x.codec (some x.registry) now fs ≠ .error .descriptorSplitBrain ∧
      loadCanonicalDescriptor x.codec (some x.registry) now fs ≠ .error .storeCorrupted ∧
      ∀ d fs', loadCanonicalDescriptor x.codec (some x.registry) now fs = .ok (d,fs') → d = a := by
  rw [loadCanonicalDescriptor]
  cases read : readBoth x.codec (some x.registry) fs with
  | error halt => simp [Except.mapError,bind,Except.bind]
  | ok pair =>
    obtain ⟨l0,l1⟩ := pair
    obtain ⟨readL0,readL1⟩ := readBothOk.mp read
    have picked : ∃ action, reconcile l0 l1 = .ok (a,action) := by
      rcases reconcileOrdered (first l0 readL0) (second l1 readL1) ordered with ⟨_,none'⟩ | heal
      · exact ⟨_,none'⟩
      · exact ⟨_,heal⟩
    obtain ⟨action,picked⟩ := picked
    simp only [Except.mapError,bind,Except.bind,picked]
    cases healReplicas x.codec (some x.registry) a now fs action with
    | error halt => simp
    | ok healed => simp [pure,Except.pure]

theorem loadInOrder {o found} (restates : Restates x.codec x.hasher) (dated : now < year10000) (first : Shows x fs .l0 a)
    (second : Shows x fs .l1 b) (ordered : Ordered a b) (loaded : load x o now fs = (fs',found)) :
    (fs' = fs ∧ found = none) ∨ ((∀ r, Shows x fs' r a) ∧ ∀ d, found = some d → d = a) := by
  unfold load at loaded
  split at loaded
  · cases loaded
    exact .inl ⟨rfl,rfl⟩
  next l0 l1 read =>
    obtain ⟨readL0,readL1⟩ := readBothOk.mp read
    rcases reconcileOrdered (first l0 readL0) (second l1 readL1) ordered with ⟨rfl,none'⟩ | heal
    · rw [none'] at loaded
      cases loaded
      refine .inr ⟨fun r => ?_,fun d same => (Option.some.inj same).symm⟩
      cases r with
      | l0 => exact first
      | l1 => exact second
    · rw [heal] at loaded
      simp only [healReplicas] at loaded
      cases wrote : writeReplica x.codec (some x.registry) a .l1 now fs with
      | error halt =>
        rw [wrote] at loaded
        cases loaded
        exact .inl ⟨rfl,rfl⟩
      | ok healed =>
        obtain ⟨data,marshalled,cell⟩ := bindOk.mp wrote
        obtain ⟨here,frame⟩ := writtenShows restates dated x.known (mapErrorOk.mp marshalled) cell
        have both : ∀ r, Shows x healed r a := by
          intro r
          cases r with
          | l0 => exact frame a first
          | l1 => exact here
        rw [wrote] at loaded
        cases o with
        | refused | cut =>
          cases loaded
          exact .inl ⟨rfl,rfl⟩
        | lost | cutAfter =>
          cases loaded
          exact .inr ⟨both,fun d same => by cases same⟩
        | done =>
          cases loaded
          exact .inr ⟨both,fun d same => (Option.some.inj same).symm⟩

end

variable {dek supplied}

section
variable {x s draw}
def Carries (x : Host) (d : Descriptor) (dek : Bytes) (supplied : List Bytes) : Prop :=
  (d.dekEncrypted = false ∧ d.dek = dek) ∨
    (d.dekEncrypted = true ∧ ∃ params, d.kdfParams = some params ∧
      ∃ passphrase ∈ supplied, unwrapDEK x.keys d.dek params passphrase = .ok dek)

def Bound (x : Host) (d : Descriptor) (dek : Bytes) : Prop :=
  d.dekEncrypted = true → ∀ params passphrase k, d.kdfParams = some params →
    unwrapDEK x.keys d.dek params passphrase = .ok k → k = dek

structure Good (x : Host) (d : Descriptor) (dek : Bytes) (supplied : List Bytes) : Prop where
  carries : Carries x d dek supplied
  bound : Bound x d dek
  sized : d.sequence < 2 ^ 64

structure Binding (keys : Keyring.Primitives) : Prop extends Inverts keys where
  only : ∀ {dek passphrase cost draw wrapped params other k}, wrapDEK keys dek passphrase cost draw = .ok (wrapped,params) →
    unwrapDEK keys wrapped params other = .ok k → k = dek

theorem goodMore {more} (good : Good x d dek supplied) (subset : supplied ⊆ more) : Good x d dek more := by
  obtain ⟨carries,bound,sized⟩ := good
  refine ⟨?_,bound,sized⟩
  rcases carries with plain | ⟨encrypted,params,recorded,passphrase,given,opens⟩
  · exact .inl plain
  · exact .inr ⟨encrypted,params,recorded,passphrase,subset given,opens⟩

variable {cost}

theorem wrappedGood {passphrase wrapped params} (binding : Binding x.keys)
    (made : wrapDEK x.keys dek passphrase cost draw = .ok (wrapped,params)) (given : passphrase ∈ supplied)
    (encrypted : next.dekEncrypted = true) (box : next.dek = wrapped) (recorded : next.kdfParams = some params)
    (sized : next.sequence < 2 ^ 64) : Good x next dek supplied := by
  subst box
  refine ⟨.inr ⟨encrypted,params,recorded,passphrase,given,unwrapWrapped binding.toInverts made⟩,?_,sized⟩
  intro _ params' other k recorded' opens
  cases someSame recorded recorded'
  exact binding.only made opens

theorem nextSized (n : Nat) : nextSequence n < 2 ^ 64 := Nat.mod_lt _ (by decide)

structure Follows (x : Host) (s : Session) (dek : Bytes) (supplied : List Bytes) (next : Descriptor) : Prop where
  sequence : next.sequence = nextSequence s.desc.sequence
  good : s.dek = dek → Good x next dek supplied

theorem setPassphraseFollows {answer} (binding : Binding x.keys)
    (ok : setPassphrase x s cost answer draw = .ok next) : Follows x s dek (answer.toList ++ supplied) next := by
  unfold setPassphrase at ok
  split at ok
  · cases ok
  split at ok
  · cases ok
  obtain ⟨passphrase,called,rest⟩ := bindOk.mp ok
  obtain ⟨⟨wrapped,params⟩,made,last⟩ := bindOk.mp rest
  cases last
  refine ⟨rfl,fun same => ?_⟩
  obtain ⟨_,rfl,_⟩ := providerOk.mp called
  exact wrappedGood binding (same ▸ made) (by simp) rfl rfl rfl (nextSized _)

theorem rotateKEKFollows {current new} (binding : Binding x.keys)
    (ok : rotateKEK x s current new draw = .ok next) : Follows x s dek (new.toList ++ supplied) next := by
  unfold rotateKEK at ok
  split at ok
  · cases ok
  next encrypted =>
  split at ok
  · cases ok
  obtain ⟨_,_,rest⟩ := bindOk.mp ok
  obtain ⟨verified,_,rest⟩ := bindOk.mp rest
  split at rest
  · cases rest
  obtain ⟨passphrase,called,rest⟩ := bindOk.mp rest
  obtain ⟨⟨wrapped,params⟩,made,last⟩ := bindOk.mp rest
  cases last
  refine ⟨rfl,fun same => ?_⟩
  obtain ⟨_,rfl,_⟩ := providerOk.mp called
  exact wrappedGood binding (same ▸ made) (by simp) (by simpa using encrypted) rfl rfl (nextSized _)

theorem broughtUp (answer : Option Bytes) (good : Good x d dek supplied) :
    (bringUp x answer d).desc = d ∧ ((bringUp x answer d).unlocked = true → (bringUp x answer d).dek = dek) := by
  unfold bringUp
  split
  · next plain =>
    refine ⟨rfl,fun _ => ?_⟩
    rcases good.carries with ⟨_,same⟩ | ⟨encrypted,_⟩
    · exact same
    · rw [encrypted] at plain
      cases plain
  next encrypted =>
    split
    · next params passphrase recorded called =>
      split
      · next k opens => exact ⟨rfl,fun _ => good.bound (by simpa using encrypted) params passphrase k recorded opens⟩
      · exact ⟨rfl,fun locked => by cases locked⟩
    · exact ⟨rfl,fun locked => by cases locked⟩

end

section
variable {x w s faults}
inductive Position (x : Host) (dek : Bytes) (supplied : List Bytes) (a b : Descriptor) : Option Session → Prop where
  | down (ordered : Ordered a b) : Position x dek supplied a b none
  | level {s : Session} (good : Good x s.desc dek supplied) (key : s.unlocked = true → s.dek = dek) (second : b = s.desc)
      (ordered : Ordered a b) : Position x dek supplied a b (some s)
  | ahead {s : Session} (good : Good x s.desc dek supplied) (key : s.unlocked = true → s.dek = dek) (same : a = b)
      (above : b.sequence = s.desc.sequence + 1) : Position x dek supplied a b (some s)

structure Cells (x : Host) (dek : Bytes) (supplied : List Bytes) (fs : Fs) (a b : Descriptor) : Prop where
  first : Shows x fs .l0 a
  second : Shows x fs .l1 b
  firstGood : Good x a dek supplied
  secondGood : Good x b dek supplied

def Kept (x : Host) (dek : Bytes) (w : World) : Prop :=
  ∃ a b, Cells x dek w.supplied w.fs a b ∧ Position x dek w.supplied a b w.session

def Overtaken (x : Host) (w : World) (s : Session) : Prop :=
  ∃ d, readReplica x.codec (some x.registry) w.fs .l1 = .ok (.valid d) ∧ s.desc.sequence < d.sequence

def Guarded (x : Host) (w : World) : Event → Prop
  | .setPassphrase _ _ _ faults now | .rotateKEK _ _ _ faults now =>
    now < year10000 ∧ ∀ s, w.session = some s → Overtaken x w s → Clean faults
  | .openStore _ _ now => now < year10000
  | .crash => True

theorem positionOrdered {session} (position : Position x dek supplied a b session) : Ordered a b := by
  cases position with
  | down ordered => exact ordered
  | level _ _ _ ordered => exact ordered
  | ahead _ _ same _ => exact .inl same

theorem keptMore {more} (subset : w.supplied ⊆ more) (kept : Kept x dek w) : Kept x dek {w with supplied := more} := by
  obtain ⟨a,b,cells,position⟩ := kept
  refine ⟨a,b,⟨cells.first,cells.second,goodMore cells.firstGood subset,goodMore cells.secondGood subset⟩,?_⟩
  obtain ⟨fs,session,supplied⟩ := w
  cases position with
  | down ordered => exact .down ordered
  | level good key second ordered => exact .level (goodMore good subset) key second ordered
  | ahead good key same above => exact .ahead (goodMore good subset) key same above

theorem levelOf (kept : Kept x dek w) (session : w.session = some s) (behind : ¬ Overtaken x w s) :
    ∃ a, Cells x dek w.supplied w.fs a s.desc ∧ Ordered a s.desc := by
  obtain ⟨a,b,cells,position⟩ := kept
  rw [session] at position
  cases position with
  | level good key second ordered => exact ⟨a,second ▸ cells,second ▸ ordered⟩
  | ahead good key same above =>
    refine ⟨a,⟨cells.first,fun reading read => ?_,cells.firstGood,good⟩,.inr (same ▸ above)⟩
    have here := cells.second reading read
    exact absurd ⟨b,here ▸ read,by omega⟩ behind

theorem followsNext (sized : s.desc.sequence < 2 ^ 64) (follows : Follows x s dek supplied next)
    (some' : next.sequence ≠ 0) : next.sequence = s.desc.sequence + 1 := by
  have number := follows.sequence
  unfold nextSequence at number
  omega

theorem keptCommit (restates : Restates x.codec x.hasher) (dated : now < year10000) (kept : Kept x dek w) (session : w.session = some s)
    (unlocked : s.unlocked = true) (follows : Follows x s dek w.supplied next) (guarded : Overtaken x w s → Clean faults) :
    Kept x dek (commit x w s next faults now) := by
  have memory : Good x s.desc dek w.supplied ∧ s.dek = dek := by
    obtain ⟨a,b,cells,position⟩ := kept
    rw [session] at position
    cases position with
    | level good key _ _ => exact ⟨good,key unlocked⟩
    | ahead good key _ _ => exact ⟨good,key unlocked⟩
  obtain ⟨good,key⟩ := memory
  have written := follows.good key
  unfold commit
  rcases wrote : writeBoth x faults next now w.fs with ⟨fs,result⟩
  cases wroteBoth restates dated wrote with
  | neither same short =>
    subst same
    cases result with
    | ok => exact absurd rfl short
    | failed => exact kept
    | crashed =>
      obtain ⟨a,b,cells,position⟩ := kept
      exact ⟨a,b,cells,.down (positionOrdered position)⟩
  | first some' shows frame short torn =>
    -- The write of one cell only was made with the second cell level with the memory.
    obtain ⟨a,cells,ordered⟩ := levelOf kept session (fun ahead => torn (guarded ahead))
    have after : Cells x dek w.supplied fs next s.desc := ⟨shows,frame s.desc cells.second,written,good⟩
    have number : Ordered next s.desc := .inr (followsNext good.sized follows some')
    cases result with
    | ok => exact absurd rfl short
    | failed => exact ⟨next,s.desc,after,session ▸ .level good (fun _ => key) rfl number⟩
    | crashed => exact ⟨next,s.desc,after,.down number⟩
  | both some' shows =>
    have after : Cells x dek w.supplied fs next next := ⟨shows .l0,shows .l1,written,written⟩
    cases result with
    | ok => exact ⟨next,next,after,.level written (fun _ => key) rfl (.inl rfl)⟩
    | failed => exact ⟨next,next,after,session ▸ .ahead good (fun _ => key) rfl (followsNext good.sized follows some')⟩
    | crashed => exact ⟨next,next,after,.down (.inl rfl)⟩

theorem keptRekey {call} (restates : Restates x.codec x.hasher) (dated : now < year10000) (kept : Kept x dek w)
    (guarded : ∀ s, w.session = some s → Overtaken x w s → Clean faults)
    (follows : ∀ s next, call s = .ok next → Follows x s dek w.supplied next) : Kept x dek (rekey x w call faults now) := by
  unfold rekey
  split
  · exact kept
  next s session =>
  split
  · exact kept
  next unlocked =>
  split
  · exact kept
  next next made =>
    exact keptCommit restates dated kept session (by simpa using unlocked) (follows s next made) (guarded s session)

theorem keptStep (binding : Binding x.keys) (restates : Restates x.codec x.hasher) (w : World) (e : Event) (kept : Kept x dek w)
    (guarded : Guarded x w e) : Kept x dek (step x w e) := by
  cases e with
  | setPassphrase cost answer draw faults now =>
    exact keptRekey restates guarded.1 (keptMore (subset_append_right _ _) kept) guarded.2
      fun s next made => setPassphraseFollows binding made
  | rotateKEK current new draw faults now =>
    exact keptRekey restates guarded.1 (keptMore (subset_append_right _ _) kept) guarded.2
      fun s next made => rotateKEKFollows binding made
  | crash =>
    obtain ⟨a,b,cells,position⟩ := kept
    exact ⟨a,b,cells,.down (positionOrdered position)⟩
  | openStore answer heal now =>
    rw [step]
    split
    · exact kept
    next closed =>
    obtain ⟨a,b,cells,position⟩ := kept
    have ordered := positionOrdered position
    have down : w.session = none := not_not.mp closed
    rcases loaded : load x heal now w.fs with ⟨fs,found⟩
    rcases loadInOrder restates guarded cells.first cells.second ordered loaded with ⟨rfl,rfl⟩ | ⟨both,brought⟩
    · exact ⟨a,b,cells,down ▸ .down ordered⟩
    have after : Cells x dek w.supplied fs a a := ⟨both .l0,both .l1,cells.firstGood,cells.firstGood⟩
    cases found with
    | none => exact ⟨a,a,after,down ▸ .down (.inl rfl)⟩
    | some d =>
      cases brought d rfl
      obtain ⟨desc,key⟩ := broughtUp answer cells.firstGood
      exact ⟨a,a,after,.level (desc.symm ▸ cells.firstGood) key desc.symm (.inl rfl)⟩

structure Start (x : Host) (d : Descriptor) (dek : Bytes) (w : World) : Prop where
  equal : BothHold x.codec x.registry w.fs d
  good : Good x d dek w.supplied
  memory : ∀ s, w.session = some s → s.desc = d ∧ (s.unlocked = true → s.dek = dek)

theorem startKept {d} (start : Start x d dek w) : Kept x dek w := by
  have shows : ∀ r, Shows x w.fs r d := fun r reading read => okSame read (start.equal r)
  refine ⟨d,d,⟨shows .l0,shows .l1,start.good,start.good⟩,?_⟩
  cases session : w.session with
  | none => exact .down (.inl rfl)
  | some s =>
    obtain ⟨desc,key⟩ := start.memory s session
    exact .level (desc.symm ▸ start.good) key desc.symm (.inl rfl)

/-- Whatever calls were made and whatever became of their writes, unless one written to one cell only began with the
second cell ahead: the next open finds a descriptor with the original key. -/
theorem dataKeySurvives {d : Descriptor} (binding : Binding x.keys) (restates : Restates x.codec x.hasher) (start : Start x d dek w)
    (events : List Event) (guarded : Along (step x) (Guarded x) w events) (now : Instant) :
    loadCanonicalDescriptor x.codec (some x.registry) now (after (step x) w events).fs ≠ .error .descriptorSplitBrain ∧
      loadCanonicalDescriptor x.codec (some x.registry) now (after (step x) w events).fs ≠ .error .storeCorrupted ∧
      ∀ d fs', loadCanonicalDescriptor x.codec (some x.registry) now (after (step x) w events).fs = .ok (d,fs') →
        Carries x d dek (after (step x) w events).supplied := by
  obtain ⟨a,b,cells,position⟩ := invariantAfter (keptStep binding restates) (startKept start) guarded
  obtain ⟨whole,sound,takes⟩ := opensInOrder now cells.first cells.second (positionOrdered position)
  refine ⟨whole,sound,fun d fs' loaded => ?_⟩
  rw [takes d fs' loaded]
  exact cells.firstGood.carries

end

def tableCodec (known : List Descriptor) : Codec where
  marshalIndent d := if d ∈ known then .ok (List.replicate (known.idxOf d) 0) else .error (.other "json")
  parse bytes := match known[bytes.length]? with
    | some d => .ok d
    | none => .error (.other "json")
  encode m := .ok (0xaa::m.inlineBlob)
  decode
    | 0xaa::payload => .ok (inlineManifest sampleHasher "" payload hashSHA256 0)
    | _ => .error (.other "artifact: unknown magic")

theorem tableRestates (known : List Descriptor) : Restates (tableCodec known) sampleHasher := by
  refine ⟨fun {bytes d} parsed => ?_,fun {d data} indented => ?_,fun r {_ _ _} _ _ => ⟨_,rfl⟩,
    fun {_ _ _ _ body} _ _ made _ => ?_⟩
  · simp only [tableCodec] at parsed
    split at parsed
    · next found =>
      cases parsed
      exact ⟨_,if_pos (mem_of_getElem? found)⟩
    · cases parsed
  · simp only [tableCodec] at indented
    split at indented
    · next mem =>
      cases indented
      simp only [tableCodec,length_replicate,List.getElem?_idxOf mem]
    · cases indented
  · cases made
    exact ⟨_,rfl,rfl,rfl,rfl,rfl⟩

def sampleDraw (b : UInt8) : Draw := ⟨some ⟨List.replicate saltLen b,rfl⟩,some ⟨List.replicate nonceLen b,rfl⟩⟩
def plainDescriptor : Descriptor := ⟨"s",1,1,sampleDEK,false,none⟩

def boxed (sequence : Nat) (b : UInt8) : Descriptor :=
  ⟨"s",1,sequence,List.replicate nonceLen b ++ (sampleDEK ++ List.replicate tagLen 0),true,
    some ⟨kdfAlgorithm,1,65536,4,List.replicate saltLen b⟩⟩

def sampleHost : Host :=
  ⟨tableCodec [plainDescriptor,boxed 2 1,boxed 2 2],samplePrimitives,sampleHasher,sampleRegistry,rfl⟩

def sampleWorld : World :=
  ⟨LocalFs.put (LocalFs.put ∅ (cellFile name) [0xaa] 0) (cellFile backupName) [0xaa] 0,
    some ⟨plainDescriptor,sampleDEK,true⟩,[]⟩

def retriedRekey : List Event :=
  [.setPassphrase ⟨0,0,0⟩ (some [1]) (sampleDraw 1) (.done,.lost) 1,.setPassphrase ⟨0,0,0⟩ (some [1]) (sampleDraw 2) (.done,.cut) 2]

theorem sampleInverts : Inverts samplePrimitives := by
  refine ⟨fun key nonce plain => ?_,fun key nonce plain => ?_⟩
  · simp only [samplePrimitives,sampleGCM,length_append,length_replicate]
    rw [if_neg (by omega),Nat.add_sub_cancel,take_left]
  · simp only [samplePrimitives,sampleGCM,length_append,length_replicate]

theorem sampleBinding : Binding samplePrimitives := by
  refine ⟨sampleInverts,fun {_ _ _ _ _ _ _ _} made opens => ?_⟩
  obtain ⟨_,_,_,_,whole,_⟩ := unwrapOk.mp (unwrapWrapped sampleInverts made)
  obtain ⟨_,_,_,_,opened,_⟩ := unwrapOk.mp opens
  exact okSame opened whole

theorem sampleEqual : BothHold sampleHost.codec sampleHost.registry sampleWorld.fs plainDescriptor := by
  intro r
  cases r <;> decide +kernel

theorem sampleStart : Start sampleHost plainDescriptor sampleDEK sampleWorld := by
  refine ⟨sampleEqual,⟨.inl ⟨rfl,rfl⟩,fun encrypted => ?_,by decide⟩,fun s session => ?_⟩
  · cases encrypted
  · cases session
    exact ⟨rfl,fun _ => rfl⟩

theorem retrySplitsBrain :
    BothHold sampleHost.codec sampleHost.registry sampleWorld.fs plainDescriptor ∧
      loadCanonicalDescriptor sampleHost.codec (some sampleHost.registry) 3 (after (step sampleHost) sampleWorld retriedRekey).fs =
        .error .descriptorSplitBrain :=
  ⟨sampleEqual,by decide +kernel⟩

def refusedRekey : List Event :=
  [.setPassphrase ⟨0,0,0⟩ (some [1]) (sampleDraw 1) (.done,.refused) 1,
    .setPassphrase ⟨0,0,0⟩ (some [1]) (sampleDraw 2) (.done,.cutAfter) 2,.openStore (some [1]) .done 3]

theorem refusedRekeyOpens :
    loadCanonicalDescriptor sampleHost.codec (some sampleHost.registry) 4 (after (step sampleHost) sampleWorld refusedRekey).fs ≠
      .error .descriptorSplitBrain := by
  have guarded : Along (step sampleHost) (Guarded sampleHost) sampleWorld refusedRekey := by
    refine alongCons.mpr ⟨⟨by decide,fun s session ahead => ?_⟩,alongCons.mpr ⟨⟨by decide,fun _ _ _ => .inr ⟨rfl,rfl⟩⟩,
      alongCons.mpr ⟨(by decide : 3 < year10000),fun _ mem => ?_⟩⟩⟩
    · cases session
      obtain ⟨d,read,above⟩ := ahead
      cases okSame (sampleEqual .l1) read
      exact absurd above (by decide)
    · cases mem
  exact (dataKeySurvives sampleBinding (tableRestates _) sampleStart refusedRekey guarded 4).1

end Scrinium.Rekey
