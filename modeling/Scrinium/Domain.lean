import Scrinium.HexText

/-! Domain types of the engine: pipeline stages, manifests, the crypto identity of a blob, and the error values the
modelled code returns or tests for. -/
namespace Scrinium.Domain
export HexText (Bytes)

abbrev Instant := Nat
def second : Nat := 1000000000
def formatTime (t : Instant) : Nat := t / second
def year10000 : Instant := 253402300800 * second

/- The verb %q, on a text of printable characters: a quote or a backslash gets a backslash. -/
def quoteText (text : String) : String :=
  let escaped := text.toList.flatMap fun c => if c.toNat = 34 ∨ c.toNat = 92 then [Char.ofNat 92,c] else [c]
  String.ofList ([Char.ofNat 34] ++ escaped ++ [Char.ofNat 34])

inductive Error where
  | artifactNotFound
  | corruptedManifest
  | corruptedBlob
  | manifestTooLarge
  | alreadyExists
  | notExist
  | leaseHeld
  | leaseLost
  | retentionNotExpired
  | deletionForbidden
  | unsupportedAlgorithm
  | invalidPipeline
  | artifactTooLarge
  | sessionIDTooLong
  | extTooLarge
  | usrTooLarge
  | indexIncomplete
  | indexDamaged
  | notNull
  | panicked
  | invalidHex (key : String)
  | other (message : String)
  deriving DecidableEq

structure PipelineStage where
  algorithm : String
  hash : String
  iv : Bytes
  keyID : String
  deriving DecidableEq

/- LayoutHeader.BlobStorage; `unset` stands for every text that is neither constant. -/
inductive Layout where
  | inline
  | target
  | unset
  deriving DecidableEq

structure Manifest where
  artifactID : String
  name : String
  digest : String
  identityNonce : Bytes
  sessionID : String
  createdAt : Option Instant
  contentHash : String
  originalSize : Int
  hashAlgo : String
  blobRefs : List String
  handleRefs : List String
  layout : Layout
  pipeline : List PipelineStage
  inlineBlob : Bytes
  retentionUntil : Option Instant
  ext : Bytes
  usr : Bytes
  identityMetaHash : String := ""
  keyID : String := ""
  deriving DecidableEq

def Manifest.isUser (m : Manifest) : Bool := m.artifactID ≠ ""
def Manifest.isSystem (m : Manifest) : Bool := m.name ≠ ""
def Manifest.isContainer (m : Manifest) : Bool := m.artifactID = "" && m.name = ""
def Manifest.primaryBlobRef (m : Manifest) : String := m.blobRefs.headD ""

/- The first bytes of a text and the rest. A cut inside a character leaves no text, which the model does not follow. -/
def splitBytes : List Char → Nat → Option (List Char × List Char)
  | chars, 0 => some ([],chars)
  | [], _ + 1 => none
  | c::rest, n + 1 => if c.utf8Size ≤ n + 1 then (splitBytes rest (n + 1 - c.utf8Size)).map fun cut => (c::cut.1,cut.2) else none

def shards (text : String) : Option (String × String) := do
  let (first,rest) ← splitBytes text.toList 2
  let (second,_) ← splitBytes rest 2
  return (String.ofList first,String.ofList second)

/- strings.ToLower on the ASCII letters algorithm names are made of. -/
def toLower (s : String) : String := String.ofList (s.toList.map Char.toLower)
def isCryptoAlgorithm (algo : String) : Bool := toLower algo = "aes-gcm" || toLower algo = "chacha20-poly1305"

def cryptoIdentityOf (stages : List PipelineStage) : String :=
  stages.foldl (fun id s => if isCryptoAlgorithm s.algorithm then s.algorithm ++ "/" ++ s.keyID else id) ""

theorem cryptoIdentityKeyless {stages}
    (keyless : ∀ s ∈ stages, isCryptoAlgorithm s.algorithm = false) : cryptoIdentityOf stages = "" := by
  unfold cryptoIdentityOf
  induction stages with
  | nil => rfl
  | cons s rest ih =>
    rw [List.foldl_cons,keyless s List.mem_cons_self]
    exact ih fun t mem => keyless t (List.mem_cons_of_mem s mem)

end Scrinium.Domain
