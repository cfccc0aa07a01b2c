import Scrinium.Keyring
import Scrinium.ManifestCodec
import Scrinium.PipelineStream
import Scrinium.StoreOpen

/-! The key of an open store (store/internal/crypto, Unlock and Close), held by the crypto state for writes and by the
static resolver for reads. -/
namespace Scrinium.CryptoState
open HexText (Bytes)
open Domain (Error)
open StoreDescriptor (Descriptor KDFParams)
open StoreOpen (StoreState)
open Keyring Trace

structure StaticKeyResolver where
  dek : Option Bytes
  deriving DecidableEq

def newStaticKeyResolver (dek : Bytes) : StaticKeyResolver := ⟨some dek⟩
def StaticKeyResolver.getKeys {κ : Type} (r : StaticKeyResolver) (_ : κ) : Except Error (List Bytes) := .ok r.dek.toList
def StaticKeyResolver.close (_ : StaticKeyResolver) : StaticKeyResolver := ⟨none⟩

structure Crypto where
  desc : Option Descriptor
  dek : Bytes
  provider : Bool
  keyResolver : Option StaticKeyResolver
  deriving DecidableEq

section
variable (c : Crypto)
def Crypto.dekForWrite : Except KeyFault Bytes :=
  if c.dek = [] then .error .locked
  else if c.keyResolver = none then .error .noResolver
  else .ok c.dek

def Crypto.resolver : Option StaticKeyResolver := c.keyResolver
def Crypto.keyProvider : ManifestCodec.KeyProvider := c.keyResolver.map StaticKeyResolver.getKeys

def Crypto.promoteResolverIfDefault : Crypto :=
  if c.keyResolver ≠ none then c
  else if c.dek = [] then c
  else {c with keyResolver := some (newStaticKeyResolver c.dek)}

def Crypto.wipeDEK : Crypto := {c with dek := []}

/- CloseSecrets, and the Close of the resolver it returns. -/
def Crypto.closeSecrets : Crypto := {c with dek := [], keyResolver := c.keyResolver.map StaticKeyResolver.close}

end

def Crypto.unlockDEK (x : Primitives) (c : Crypto) (answer : Option Bytes) : Except KeyFault Crypto :=
  if c.dek ≠ [] then .ok c
  else match c.desc with
    | none => .error .storeCorrupted
    | some d =>
      match d.dekEncrypted, d.kdfParams with
      | true, some params => do
        let passphrase ← callProvider c.provider answer
        let dek ← unwrapDEK x d.dek params passphrase
        return {c with dek := dek}.promoteResolverIfDefault
      | _, _ => .error .storeCorrupted

inductive Flight where
  | claimed
  | keyed
  deriving DecidableEq

/- `waiting` counts the Unlock calls past enterAdmin that have not looked at the state yet. -/
structure Store where
  crypto : Crypto
  state : StoreState
  closed : Bool
  waiting : Nat
  flight : Option Flight
  deriving DecidableEq

/- The atomic parts of Unlock, and Close. UnlockDEK runs wholly before or after CloseSecrets. -/
inductive Event where
  | enterAdmin
  | claim
  | unlockDEK (answer : Option Bytes)
  | bootstrap (ok : Bool)
  | close
  deriving DecidableEq

def step (x : Primitives) (s : Store) : Event → Store
  | .enterAdmin => if s.closed then s else if s.state = .bootstrapping then s else {s with waiting := s.waiting + 1}
  | .claim =>
    if s.waiting = 0 then s
    else match s.state with
      | .locked => {s with waiting := s.waiting - 1, state := .bootstrapping, flight := some .claimed}
      | .unlocked => {s with waiting := s.waiting - 1}
      | .bootstrapping => {s with waiting := s.waiting - 1}
  | .unlockDEK answer =>
    if s.flight = some .claimed then
      match s.crypto.unlockDEK x answer with
      | .error _ => {s with state := .locked, flight := none}
      | .ok c => {s with crypto := c, flight := some .keyed}
    else s
  | .bootstrap ok =>
    if s.flight = some .keyed then
      if ok then {s with state := .unlocked, flight := none}
      else {s with crypto := s.crypto.wipeDEK, state := .locked, flight := none}
    else s
  | .close => if s.closed then s else {s with closed := true, crypto := s.crypto.closeSecrets}

/- OpenStore on an encrypted descriptor, without and with the automatic unlock. -/
def lockedShell (d : Descriptor) (provider : Bool) : Store := ⟨⟨some d,[],provider,none⟩,.locked,false,0,none⟩

def autoUnlocked (d : Descriptor) (dek : Bytes) : Store :=
  ⟨Crypto.promoteResolverIfDefault ⟨some d,dek,true,none⟩,.unlocked,false,0,none⟩

variable {c : Crypto} {dek}

structure Silent (c : Crypto) : Prop where
  write : ∀ dek, c.dekForWrite ≠ .ok dek
  resolver : ∀ r, c.resolver = some r → ∀ keyID : String, r.getKeys keyID = .ok []
  provider : ∀ getKeys, c.keyProvider = some getKeys → ∀ keyID, getKeys keyID = .ok []

structure Access (c : Crypto) (dek : Bytes) : Prop where
  write : c.dekForWrite = .ok dek
  resolver : ∃ r, c.resolver = some r ∧ ∀ keyID : String, r.getKeys keyID = .ok [dek]
  provider : ∃ getKeys, c.keyProvider = some getKeys ∧ ∀ keyID, getKeys keyID = .ok [dek]

structure Undeciphered (c : Crypto) : Prop where
  manifest : ∀ lib data header offset m, ManifestCodec.readHeader lib data = .ok (header,offset) → header.crypto ≠ .plain →
    ManifestCodec.decodeEncrypted lib c.keyProvider data ≠ .ok m
  blob : ∀ r, c.resolver = some r → ∀ (x : PipelineStream.Plugins) stage,
    x.registry stage.algorithm = some (.aesgcm (.resolving r.getKeys)) →
    ∀ count flow src out, PipelineStream.getStage x count stage flow src ≠ .ok out

def Keyless (c : Crypto) : Prop := c.dek = [] ∧ (c.keyResolver = none ∨ c.keyResolver = some ⟨none⟩)

theorem keylessSilent (none' : Keyless c) : Silent c := by
  obtain ⟨empty,gone⟩ := none'
  refine ⟨fun dek ok => ?_,fun r held keyID => ?_,fun getKeys held keyID => ?_⟩
  · rw [Crypto.dekForWrite,if_pos empty] at ok
    cases ok
  · rcases gone with absent | closed
    · cases absent.symm.trans held
    · cases closed.symm.trans held
      rfl
  · rw [Crypto.keyProvider] at held
    rcases gone with absent | closed
    · rw [absent] at held
      cases held
    · rw [closed] at held
      cases held
      rfl

theorem silentUndeciphered (silent : Silent c) : Undeciphered c := by
  constructor
  · intro lib data header offset m read secret ok
    unfold ManifestCodec.decodeEncrypted at ok
    split at ok
    · cases ok
    rw [read] at ok
    change ManifestCodec.decodeUnder lib c.keyProvider header _ _ = _ at ok
    unfold ManifestCodec.decodeUnder at ok
    rw [if_neg secret] at ok
    split at ok
    · cases ok
    next getKeys held =>
      rw [silent.provider getKeys held] at ok
      cases ok
  · intro r held x stage registered count flow src out ok
    rw [PipelineStream.getStage,registered] at ok
    obtain ⟨aeads,resolved,_⟩ := bindOk.mp ok
    obtain ⟨keys,found,_⟩ := bindOk.mp resolved
    rw [PipelineStream.resolveKeys,silent.resolver r held] at found
    cases found

theorem heldAccess (some' : dek ≠ []) (held : c.dek = dek) (copied : c.keyResolver = some ⟨some dek⟩) : Access c dek := by
  refine ⟨?_,⟨⟨some dek⟩,copied,fun _ => rfl⟩,⟨_,by rw [Crypto.keyProvider,copied]; rfl,fun _ => rfl⟩⟩
  rw [Crypto.dekForWrite,held,if_neg some',if_neg (by rw [copied]; simp)]

variable {x d}

section
variable {c' answer}
def Wraps (x : Primitives) (d : Descriptor) (dek : Bytes) : Prop :=
  d.dekEncrypted = true ∧ ∃ params, d.kdfParams = some params ∧
    ∀ passphrase k, unwrapDEK x d.dek params passphrase = .ok k → k = dek

def Opens (x : Primitives) (d : Descriptor) (provider : Bool) (answer : Option Bytes) : Prop :=
  provider = true ∧ ∃ passphrase params k, answer = some passphrase ∧ d.kdfParams = some params ∧
    unwrapDEK x d.dek params passphrase = .ok k

variable {provider}

theorem providerOk {passphrase} :
    callProvider provider answer = .ok passphrase ↔ provider = true ∧ answer = some passphrase ∧ passphrase ≠ [] := by
  unfold callProvider
  cases provider with
  | false => simp
  | true =>
    cases answer with
    | none => simp
    | some bytes =>
      cases bytes with
      | nil =>
        simp only [Bool.not_true,Bool.false_eq_true,if_false,reduceCtorEq,true_and,Option.some.injEq,false_iff,not_and,ne_eq]
        intro same
        exact fun given => given same.symm
      | cons first rest =>
        simp only [Bool.not_true,Bool.false_eq_true,if_false,Except.ok.injEq,true_and,Option.some.injEq]
        constructor
        · rintro rfl
          exact ⟨rfl,List.cons_ne_nil _ _⟩
        · exact And.left

theorem unlockOk (wraps : Wraps x d dek) (loaded : c.desc = some d) (empty : c.dek = []) :
    c.unlockDEK x answer = .ok c' ↔
      Opens x d c.provider answer ∧ c' = {c with dek := dek}.promoteResolverIfDefault := by
  obtain ⟨encrypted,params,recorded,one⟩ := wraps
  rw [Crypto.unlockDEK,if_neg (not_not.mpr empty),loaded]
  simp only [encrypted,recorded,bindOk,providerOk]
  constructor
  · rintro ⟨passphrase,⟨provided,answered,_⟩,k,unwrapped,last⟩
    cases one passphrase k unwrapped
    exact ⟨⟨provided,passphrase,params,_,answered,recorded,unwrapped⟩,(Except.ok.inj last).symm⟩
  · rintro ⟨⟨provided,passphrase,params',k,answered,recorded',unwrapped⟩,rfl⟩
    cases someSame recorded recorded'
    cases one passphrase k unwrapped
    exact ⟨passphrase,⟨provided,answered,(unwrapOk.mp unwrapped).1⟩,_,unwrapped,rfl⟩

theorem opensKey (wraps : Wraps x d dek) (opens : Opens x d provider answer) : dek ≠ [] := by
  obtain ⟨_,params,recorded,one⟩ := wraps
  obtain ⟨_,passphrase,params',k,_,recorded',unwrapped⟩ := opens
  cases someSame recorded recorded'
  cases one passphrase k unwrapped
  obtain ⟨_,_,_,_,_,sized⟩ := unwrapOk.mp unwrapped
  rintro rfl
  cases sized

end

section
variable {s e}
structure Kept (d : Descriptor) (dek : Bytes) (s : Store) : Prop where
  desc : s.crypto.desc = some d
  busy : s.flight ≠ none → s.state = .bootstrapping
  empty : s.state = .locked ∨ s.flight = some .claimed → s.crypto.dek = []
  copies : s.closed = false → s.crypto.keyResolver = none ∨ s.crypto.keyResolver = some ⟨some dek⟩
  key : s.state = .unlocked ∨ s.flight = some .keyed → dek ≠ []
  ready : s.state = .unlocked ∨ s.flight = some .keyed → s.closed = false →
    s.crypto.dek = dek ∧ s.crypto.keyResolver = some ⟨some dek⟩

def Barred (s : Store) : Prop := s.state = .locked ∨ s.closed = true

structure Covered (dek : Bytes) (s : Store) : Prop where
  silent : Barred s → Silent s.crypto ∧ Undeciphered s.crypto
  restored : s.state = .unlocked → s.closed = false → Access s.crypto dek

def Guarded (x : Primitives) (d : Descriptor) (s : Store) : Event → Prop
  | .unlockDEK answer => s.flight = some .claimed → s.closed = true → ¬ Opens x d s.crypto.provider answer
  | .bootstrap ok => s.flight = some .keyed → ok = false → s.closed = true
  | _ => True

def Quiet (s : Store) : Prop := s.state = .locked ∨ s.flight = some .claimed ∨ s.closed = true → Keyless s.crypto

theorem promotedKey (some' : dek ≠ []) :
    ({c with dek := dek}.promoteResolverIfDefault).dek = dek ∧
      ({c with dek := dek}.promoteResolverIfDefault).desc = c.desc ∧
      ({c with dek := dek}.promoteResolverIfDefault).keyResolver = some (c.keyResolver.getD ⟨some dek⟩) := by
  unfold Crypto.promoteResolverIfDefault
  cases held : c.keyResolver with
  | none => simp [some',newStaticKeyResolver]
  | some r => simp

theorem keptStep (wraps : Wraps x d dek) (kept : Kept d dek s) (e : Event) : Kept d dek (step x s e) := by
  obtain ⟨desc,busy,empty,copies,key,ready⟩ := kept
  cases e with
  | enterAdmin =>
    rw [step]
    split
    · exact ⟨desc,busy,empty,copies,key,ready⟩
    · split <;> exact ⟨desc,busy,empty,copies,key,ready⟩
  | claim =>
    rw [step]
    split
    · exact ⟨desc,busy,empty,copies,key,ready⟩
    split
    · next locked => exact ⟨desc,fun _ => rfl,fun _ => empty (.inl locked),copies,by simp,by simp⟩
    · exact ⟨desc,busy,empty,copies,key,ready⟩
    · exact ⟨desc,busy,empty,copies,key,ready⟩
  | unlockDEK answer =>
    rw [step]
    split
    · next claimed =>
      have none' := empty (.inr claimed)
      split
      · exact ⟨desc,by simp,fun _ => none',copies,by simp,by simp⟩
      next c' ok =>
      obtain ⟨opens,rfl⟩ := (unlockOk wraps desc none').mp ok
      obtain ⟨holds,same,copied⟩ := promotedKey (c := s.crypto) (opensKey wraps opens)
      -- A copy that is there already is a copy of the same key.
      have current : s.closed = false → s.crypto.keyResolver.getD ⟨some dek⟩ = ⟨some dek⟩ := by
        intro open'
        rcases copies open' with absent | held
        · rw [absent]; rfl
        · rw [held]; rfl
      refine ⟨same.trans desc,fun _ => busy (by rw [claimed]; simp),?_,fun open' => ?_,fun _ => opensKey wraps opens,fun _ open' => ⟨holds,?_⟩⟩
      · rintro (locked | other)
        · cases (busy (by rw [claimed]; simp)).symm.trans locked
        · cases other
      · exact .inr (copied.trans (congrArg some (current open')))
      · exact copied.trans (congrArg some (current open'))
    · exact ⟨desc,busy,empty,copies,key,ready⟩
  | bootstrap ok =>
    rw [step]
    split
    · next keyed =>
      split
      · exact ⟨desc,by simp,by simp,copies,fun _ => key (.inr keyed),fun _ open' => ready (.inr keyed) open'⟩
      · exact ⟨desc,by simp,fun _ => rfl,copies,by simp,by simp⟩
    · exact ⟨desc,busy,empty,copies,key,ready⟩
  | close =>
    rw [step]
    split
    · exact ⟨desc,busy,empty,copies,key,ready⟩
    · exact ⟨desc,busy,fun _ => rfl,by simp,key,by simp⟩

theorem closedKeyless : Keyless c.closeSecrets := by
  refine ⟨rfl,?_⟩
  cases held : c.keyResolver with
  | none => exact .inl (by rw [Crypto.closeSecrets,held]; rfl)
  | some r => exact .inr (by rw [Crypto.closeSecrets,held]; rfl)

theorem quietStep (wraps : Wraps x d dek) (kept : Kept d dek s) (quiet : Quiet s) (guarded : Guarded x d s e) : Quiet (step x s e) := by
  cases e with
  | enterAdmin =>
    rw [step]
    split
    · exact quiet
    · split <;> exact quiet
  | claim =>
    rw [step]
    split
    · exact quiet
    split
    · next locked => exact fun _ => quiet (.inl locked)
    · exact quiet
    · exact quiet
  | unlockDEK answer =>
    rw [step]
    split
    · next claimed =>
      split
      · exact fun _ => quiet (.inr (.inl claimed))
      next c' ok =>
      obtain ⟨opens,_⟩ := (unlockOk wraps kept.desc (kept.empty (.inr claimed))).mp ok
      rintro (locked | other | closed)
      · cases (kept.busy (by rw [claimed]; simp)).symm.trans locked
      · cases other
      · exact absurd opens (guarded claimed closed)
    · exact quiet
  | bootstrap ok =>
    rw [step]
    split
    · next keyed =>
      split
      · rintro (locked | other | closed)
        · cases locked
        · cases other
        · exact quiet (.inr (.inr closed))
      · next failed =>
        have before := quiet (.inr (.inr (guarded keyed (Bool.not_eq_true ok ▸ failed))))
        exact fun _ => ⟨rfl,before.2⟩
    · exact quiet
  | close =>
    rw [step]
    split
    · exact quiet
    · exact fun _ => closedKeyless

theorem coveredOf (kept : Kept d dek s) (quiet : Quiet s) : Covered dek s := by
  refine ⟨fun barred => ?_,fun unlocked open' => ?_⟩
  · have none' : Keyless s.crypto := by
      rcases barred with locked | closed
      · exact quiet (.inl locked)
      · exact quiet (.inr (.inr closed))
    exact ⟨keylessSilent none',silentUndeciphered (keylessSilent none')⟩
  · obtain ⟨held,copied⟩ := kept.ready (.inl unlocked) open'
    exact heldAccess (kept.key (.inl unlocked)) held copied

theorem coveredGuarded (wraps : Wraps x d dek) (kept : Kept d dek s) (covered : Covered dek (step x s e)) : Guarded x d s e := by
  cases e with
  | enterAdmin => trivial
  | claim => trivial
  | close => trivial
  | unlockDEK answer =>
    intro claimed closed opens
    have unlocked := (unlockOk wraps kept.desc (kept.empty (.inr claimed))).mpr ⟨opens,rfl⟩
    rw [step,if_pos claimed,unlocked] at covered
    obtain ⟨holds,_,copied⟩ := promotedKey (c := s.crypto) (opensKey wraps opens)
    refine (covered.silent (.inr closed)).1.write dek ?_
    rw [Crypto.dekForWrite,holds,if_neg (opensKey wraps opens),if_neg (by rw [copied]; simp)]
  | bootstrap ok =>
    intro keyed failed
    by_contra open'
    have copied := (kept.ready (.inr keyed) (Bool.not_eq_true s.closed ▸ open')).2
    rw [step,if_pos keyed,failed,if_neg (by decide)] at covered
    cases (covered.silent (.inl rfl)).1.resolver ⟨some dek⟩ copied ""

inductive Opened (x : Primitives) (d : Descriptor) (dek : Bytes) : Store → Prop where
  | shell (provider : Bool) : Opened x d dek (lockedShell d provider)
  | auto {params : KDFParams} {passphrase : Bytes} (recorded : d.kdfParams = some params)
      (unwrapped : unwrapDEK x d.dek params passphrase = .ok dek) : Opened x d dek (autoUnlocked d dek)

theorem openedKept (opened : Opened x d dek s) : Kept d dek s ∧ Quiet s := by
  cases opened with
  | shell provider => exact ⟨⟨rfl,by simp [lockedShell],fun _ => rfl,fun _ => .inl rfl,by simp [lockedShell],by simp [lockedShell]⟩,fun _ => ⟨rfl,.inl rfl⟩⟩
  | @auto params passphrase recorded unwrapped =>
    have some' : dek ≠ [] := by
      rintro rfl
      obtain ⟨_,_,_,_,_,sized⟩ := unwrapOk.mp unwrapped
      cases sized
    have state : autoUnlocked d dek = ⟨⟨some d,dek,true,some ⟨some dek⟩⟩,.unlocked,false,0,none⟩ := by
      simp [autoUnlocked,Crypto.promoteResolverIfDefault,some',newStaticKeyResolver]
    rw [state]
    exact ⟨⟨rfl,by simp,by simp,fun _ => .inr rfl,fun _ => some',fun _ _ => ⟨rfl,rfl⟩⟩,by simp [Quiet]⟩

/-- A locked or closed store gives out no key and an unlocked one does, exactly when no bootstrap failed on a key
already unwrapped and no Close overtook an Unlock that then unwrapped the key. -/
theorem lockedHoldsNoKey {start : Store} (wraps : Wraps x d dek) (opened : Opened x d dek start) (events : List Event) :
    (∀ n, Covered dek (after (step x) start (events.take n))) ↔ Along (step x) (Guarded x d) start events := by
  obtain ⟨kept,quiet⟩ := openedKept opened
  rw [everywhereIff (coveredOf kept quiet)]
  have keep : ∀ s e, Kept d dek s ∧ Quiet s → Guarded x d s e → Kept d dek (step x s e) ∧ Quiet (step x s e) := by
    rintro s e ⟨kept,quiet⟩ guarded
    exact ⟨keptStep wraps kept e,quietStep wraps kept quiet guarded⟩
  refine alongIff keep (fun s e inv => ⟨coveredGuarded wraps inv.1,fun guarded => ?_⟩) ⟨kept,quiet⟩
  obtain ⟨kept,quiet⟩ := keep s e inv guarded
  exact coveredOf kept quiet

end

def sampleGCM : SegAead.AEAD :=
  ⟨nonceLen,tagLen,fun _ plain => plain ++ List.replicate tagLen 0,
    fun _ box => if box.length < tagLen then none else some (box.take (box.length - tagLen))⟩

def samplePrimitives : Primitives := ⟨fun _ _ _ => List.replicate dekLen 7,fun _ _ _ => rfl,fun _ => sampleGCM⟩
def sampleDEK : Bytes := List.replicate dekLen 5
def sampleParams : KDFParams := ⟨kdfAlgorithm,1,65536,4,List.replicate saltLen 3⟩

def sampleDescriptor : Descriptor :=
  ⟨"s",1,1,List.replicate nonceLen 9 ++ sampleDEK ++ List.replicate tagLen 0,true,some sampleParams⟩

theorem sampleWraps : Wraps samplePrimitives sampleDescriptor sampleDEK := by
  refine ⟨rfl,sampleParams,rfl,fun passphrase k ok => ?_⟩
  obtain ⟨_,_,_,_,opened,_⟩ := unwrapOk.mp ok
  exact (Except.ok.inj opened).symm

def failedBootstrap : List Event := [.enterAdmin,.claim,.unlockDEK (some [1]),.bootstrap false]

theorem wipedButResolved :
    (after (step samplePrimitives) (lockedShell sampleDescriptor true) failedBootstrap).state = .locked ∧
      ¬ Silent (after (step samplePrimitives) (lockedShell sampleDescriptor true) failedBootstrap).crypto := by
  refine ⟨by decide,fun silent => ?_⟩
  cases silent.resolver ⟨some sampleDEK⟩ (by decide) ""

theorem wrongThenRight :
    Wraps samplePrimitives sampleDescriptor sampleDEK ∧
      Opened samplePrimitives sampleDescriptor sampleDEK (lockedShell sampleDescriptor true) ∧
      ∀ n, Covered sampleDEK (after (step samplePrimitives) (lockedShell sampleDescriptor true)
        (List.take n [.enterAdmin,.claim,.unlockDEK (some []),.enterAdmin,.claim,.unlockDEK (some [1]),.bootstrap true,.close])) := by
  refine ⟨sampleWraps,.shell true,?_⟩
  refine (lockedHoldsNoKey sampleWraps (.shell true) _).mpr ?_
  simp only [alongCons]
  refine ⟨trivial,trivial,fun _ closed => ?_,trivial,trivial,fun _ closed => ?_,fun _ failed => ?_,trivial,fun _ mem => ?_⟩
  · cases closed
  · cases closed
  · cases failed
  · cases mem

end Scrinium.CryptoState
