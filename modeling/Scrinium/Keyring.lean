import Scrinium.SegAead
import Scrinium.StoreDescriptor

/-! Wrapping the data key under a passphrase (store/internal/keyring). -/
namespace Scrinium.Keyring
open HexText (Bytes)
open Trace
open StoreDescriptor (KDFParams)
open SegAead (AEAD)

inductive KeyFault where
  | passphraseRequired
  | passphraseProvider
  | passphraseAlreadySet
  | invalidKDFParams
  | decryptionFailed
  | storeCorrupted
  | locked
  | noResolver
  | dekLength (n : Nat)
  | kekLength (n : Nat)
  | emptyDek
  | randomness
  deriving DecidableEq

def dekLen : Nat := 32
def nonceLen : Nat := 12
def tagLen : Nat := 16
def saltLen : Nat := 16
def kdfAlgorithm : String := "argon2id"

structure Cost where
  time : Nat
  memory : Nat
  threads : Nat
  deriving DecidableEq

def defaultKDFParams : Cost := ⟨1,65536,4⟩
def minKDFTime : Nat := 1
def minKDFMemory : Nat := 19456
def minKDFThreads : Nat := 1

def validateKDFParams (c : Cost) : Except KeyFault Unit :=
  if c.time < minKDFTime then .error .invalidKDFParams
  else if c.memory < minKDFMemory then .error .invalidKDFParams
  else if c.threads < minKDFThreads then .error .invalidKDFParams
  else .ok ()

structure Primitives where
  idKey : (passphrase salt : Bytes) → Cost → Bytes
  idKeyLength : ∀ passphrase salt cost, (idKey passphrase salt cost).length = dekLen
  gcm : Bytes → AEAD

structure Draw where
  salt : Option {b : Bytes // b.length = saltLen}
  nonce : Option {b : Bytes // b.length = nonceLen}

def wrapKEK (x : Primitives) (dek kek : Bytes) (draw : Draw) : Except KeyFault Bytes :=
  if kek.length ≠ dekLen then .error (.kekLength kek.length)
  else if dek = [] then .error .emptyDek
  else match draw.nonce with
    | none => .error .randomness
    | some nonce => .ok (nonce.1 ++ (x.gcm kek).sealWith nonce.1 dek)

def unwrapKEK (x : Primitives) (wrapped kek : Bytes) : Except KeyFault Bytes :=
  if kek.length ≠ dekLen then .error (.kekLength kek.length)
  else if wrapped.length < nonceLen + tagLen then .error .decryptionFailed
  else match (x.gcm kek).openWith (wrapped.take nonceLen) (wrapped.drop nonceLen) with
    | none => .error .decryptionFailed
    | some dek => .ok dek

def Cost.orDefault (c : Cost) : Cost := if c = ⟨0,0,0⟩ then defaultKDFParams else c
def costOf (params : KDFParams) : Cost := ⟨params.time,params.memory,params.threads⟩

def wrapDEK (x : Primitives) (dek passphrase : Bytes) (cost : Cost) (draw : Draw) : Except KeyFault (Bytes × KDFParams) :=
  if dek.length ≠ dekLen then .error (.dekLength dek.length)
  else if passphrase = [] then .error .passphraseRequired
  else do
    validateKDFParams cost.orDefault
    match draw.salt with
    | none => .error .randomness
    | some salt =>
      let wrapped ← wrapKEK x dek (x.idKey passphrase salt.1 cost.orDefault) draw
      return (wrapped,⟨kdfAlgorithm,cost.orDefault.time,cost.orDefault.memory,cost.orDefault.threads,salt.1⟩)

def unwrapDEK (x : Primitives) (wrapped : Bytes) (params : KDFParams) (passphrase : Bytes) : Except KeyFault Bytes :=
  if passphrase = [] then .error .passphraseRequired
  else do
    validateKDFParams (costOf params)
    if params.algorithm ≠ kdfAlgorithm then .error .invalidKDFParams
    else if params.salt.length ≠ saltLen then .error .invalidKDFParams
    else
      let dek ← unwrapKEK x wrapped (x.idKey passphrase params.salt (costOf params))
      if dek.length ≠ dekLen then .error .decryptionFailed else return dek

def callProvider (provider : Bool) (answer : Option Bytes) : Except KeyFault Bytes :=
  if !provider then .error .passphraseRequired
  else match answer with
    | none => .error .passphraseProvider
    | some [] => .error .passphraseRequired
    | some passphrase => .ok passphrase

section
variable {x dek wrapped passphrase params cost draw}
theorem unwrapOk : unwrapDEK x wrapped params passphrase = .ok dek ↔
    passphrase ≠ [] ∧ validateKDFParams (costOf params) = .ok () ∧ params.algorithm = kdfAlgorithm ∧
      params.salt.length = saltLen ∧ unwrapKEK x wrapped (x.idKey passphrase params.salt (costOf params)) = .ok dek ∧
      dek.length = dekLen := by
  unfold unwrapDEK
  constructor
  · intro ok
    split at ok
    · cases ok
    next given =>
    obtain ⟨_,valid,rest⟩ := bindOk.mp ok
    split at rest
    · cases rest
    next known =>
    split at rest
    · cases rest
    next salted =>
    obtain ⟨k,opened,last⟩ := bindOk.mp rest
    split at last
    · cases last
    next sized =>
      cases last
      exact ⟨given,valid,not_not.mp known,not_not.mp salted,opened,not_not.mp sized⟩
  · rintro ⟨given,valid,known,salted,opened,sized⟩
    rw [if_neg given,valid]
    simp only [bind,Except.bind,known,salted,ne_eq,not_true,if_false,opened,sized]
    rfl

structure Inverts (x : Primitives) : Prop where
  opens : ∀ key nonce plain, (x.gcm key).openWith nonce ((x.gcm key).sealWith nonce plain) = some plain
  grows : ∀ key nonce plain, ((x.gcm key).sealWith nonce plain).length = plain.length + tagLen

theorem unwrapKEKWrapped (inverts : Inverts x) {kek} (ok : wrapKEK x dek kek draw = .ok wrapped) :
    unwrapKEK x wrapped kek = .ok dek := by
  unfold wrapKEK at ok
  split at ok
  · cases ok
  next sized =>
  split at ok
  · cases ok
  split at ok
  · cases ok
  next nonce _ =>
  cases ok
  have long : ¬ (nonce.1 ++ (x.gcm kek).sealWith nonce.1 dek).length < nonceLen + tagLen := by
    rw [List.length_append,inverts.grows,nonce.2]
    omega
  rw [unwrapKEK,if_neg sized,if_neg long,List.take_left' nonce.2,List.drop_left' nonce.2,inverts.opens]

theorem unwrapWrapped (inverts : Inverts x) (ok : wrapDEK x dek passphrase cost draw = .ok (wrapped,params)) :
    unwrapDEK x wrapped params passphrase = .ok dek := by
  unfold wrapDEK at ok
  split at ok
  · cases ok
  next sized =>
  split at ok
  · cases ok
  next given =>
  obtain ⟨_,valid,rest⟩ := bindOk.mp ok
  split at rest
  · cases rest
  next salt _ =>
  obtain ⟨box,sealed,last⟩ := bindOk.mp rest
  cases last
  exact unwrapOk.mpr ⟨given,valid,rfl,salt.2,unwrapKEKWrapped inverts sealed,not_not.mp sized⟩

end

end Scrinium.Keyring
