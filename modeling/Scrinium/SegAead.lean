import Scrinium.HexText
import Scrinium.Trace
import Scrinium.FrameStream

/-! The segmented AEAD blob format: a header followed by frames, one for each plaintext segment, each sealed on its own
and read until the stream ends. -/
namespace Scrinium.SegAead
open HexText (Bytes)
open FrameStream List

inductive SegError where
  | badMagic
  | unsupportedVersion (version : UInt8)
  | badMode
  | truncated
  | segmentTooLarge (size : Nat)
  | segmentAuth
  | keyIDTooLong
  | noCandidates
  | nonceSize (size : Nat)
  | missingDEK
  deriving DecidableEq

inductive IVMode where
  | random
  | convergent
  deriving DecidableEq

def IVMode.byte : IVMode → UInt8
  | .random => 0x00
  | .convergent => 0x01

def IVMode.ofByte (b : UInt8) : Option IVMode :=
  if b = 0x00 then some .random else if b = 0x01 then some .convergent else none

def magic : Bytes := [0x00,0x53,0x42,0x31]
def version : UInt8 := 1
def ivLen : Nat := 12
def fixedHeaderLen : Nat := 4 + 1 + 1 + 4 + 2
def frameHeaderLen : Nat := ivLen + 4
def maxKeyIDLen : Nat := 255
def defaultSegmentSize : Nat := 2 ^ 20
def maxSegmentSize : Nat := 64 * 2 ^ 20
def maxAEADOverhead : Nat := 64
def maxCiphertextLen : Nat := maxSegmentSize + maxAEADOverhead

structure AEAD where
  nonceSize : Nat
  overhead : Nat
  sealWith : (iv plain : Bytes) → Bytes
  openWith : (iv ct : Bytes) → Option Bytes

structure Ideal (a : AEAD) : Prop where
  opens : ∀ iv plain, a.openWith iv (a.sealWith iv plain) = some plain
  only : ∀ iv ct plain, a.openWith iv ct = some plain → ct = a.sealWith iv plain
  grows : ∀ iv plain, (a.sealWith iv plain).length = plain.length + a.overhead
  small : a.overhead ≤ maxAEADOverhead

structure Primitives where
  sha256 : Bytes → Bytes
  hmac : (key message : Bytes) → Bytes
  hmacLength : ∀ key message, (hmac key message).length = 32
  randomIV : Nat → Bytes
  randomLength : ∀ draw, (randomIV draw).length = ivLen

def SegmentSize := {n : Nat // 0 < n ∧ n ≤ maxSegmentSize}

structure SealParams where
  aead : AEAD
  mode : IVMode
  dek : Bytes
  keyID : Bytes
  segmentSize : Int

structure Header where
  mode : IVMode
  segmentSize : Nat
  keyID : Bytes

def encodeHeader (h : Header) : Except SegError Bytes :=
  if maxKeyIDLen < h.keyID.length then .error .keyIDTooLong
  else .ok (magic ++ [version] ++ [h.mode.byte] ++ bigEndian 4 h.segmentSize ++
    bigEndian 2 h.keyID.length ++ h.keyID)

def decodeFixedHeader (b : Bytes) : Except SegError (IVMode × Nat × Nat) :=
  if b.length < fixedHeaderLen then .error .truncated
  else if b.take 4 ≠ magic then .error .badMagic
  else if b.getD 4 0 ≠ version then .error (.unsupportedVersion (b.getD 4 0))
  else match IVMode.ofByte (b.getD 5 0) with
    | none => .error .badMode
    | some mode =>
      let size := value ((b.drop 6).take 4)
      if maxSegmentSize < size then .error (.segmentTooLarge size)
      else .ok (mode,size,value ((b.drop 10).take 2))

def convergentIV (c : Primitives) (dek keyID plain : Bytes) (index : Nat) : Bytes :=
  (c.hmac dek (c.sha256 plain ++ keyID ++ bigEndian 8 index)).take ivLen

def segmentIV (c : Primitives) (p : SealParams) (index : Nat) (plain : Bytes) : Bytes :=
  match p.mode with
  | .random => c.randomIV index
  | .convergent => convergentIV c p.dek p.keyID plain index

def frameBytes (iv ct : Bytes) : Bytes := iv ++ bigEndian 4 ct.length ++ ct

def sealSegment (c : Primitives) (p : SealParams) (index : Nat) (plain : Bytes) : Bytes :=
  let iv := segmentIV c p index plain
  frameBytes iv (p.aead.sealWith iv plain)

def segmentSizeOf (requested : Int) : Except SegError SegmentSize :=
  if requested ≤ 0 then .ok ⟨defaultSegmentSize,by decide⟩
  else if h : 0 < requested.toNat ∧ requested.toNat ≤ maxSegmentSize then .ok ⟨requested.toNat,h⟩
  else .error (.segmentTooLarge requested.toNat)

def plainSegments (size : SegmentSize) : Reader UInt8 SegError Bytes where
  next src := match readFull size.1 src with
    | .ok (part,rest) => .ok (some (part,rest))
    | .error .unexpectedEOF => .ok (some (src,[]))
    | .error .eof => .ok none
  shorter {src item rest} step := by
    have positive := size.2.1
    split at step
    · next part more read =>
      cases step
      obtain ⟨length,whole⟩ := readFullOk read
      rw [whole,List.length_append]
      omega
    · next cut =>
      cases step
      refine List.length_pos_iff.mpr fun empty => ?_
      simp [readFull,empty,Nat.ne_of_gt positive] at cut
    · cases step

def sealParts (c : Primitives) (p : SealParams) (src : Bytes) : Except SegError (Bytes × List Bytes) :=
  if p.aead.nonceSize ≠ ivLen then .error (.nonceSize p.aead.nonceSize)
  else if p.mode = .convergent ∧ p.dek = [] then .error .missingDEK
  else do
    let size ← segmentSizeOf p.segmentSize
    let header ← encodeHeader ⟨p.mode,size.1,p.keyID⟩
    let segments ← (plainSegments size).drain src
    return (header,segments.mapIdx (sealSegment c p))

def sealBlob (c : Primitives) (p : SealParams) (src : Bytes) : Except SegError Bytes := do
  let (header,frames) ← sealParts c p src
  return header ++ frames.flatten

def headerRead {α : Type} : Except Short α → Except SegError α
  | .ok a => .ok a
  | .error _ => .error .truncated

def readHeader (src : Bytes) : Except SegError Bytes := do
  let (fixed,rest) ← headerRead (readFull fixedHeaderLen src)
  let (_,_,keyIDLen) ← decodeFixedHeader fixed
  if 0 < keyIDLen then
    let (_,rest) ← headerRead (readFull keyIDLen rest)
    return rest
  else return rest

def readBody (aeads : List AEAD) (iv : Bytes) (ctLen : Nat) (src : Bytes) : Except SegError (Option (Bytes × Bytes)) :=
  match readFull ctLen src with
  | .error _ => .error .truncated
  | .ok (ct,rest) =>
    match aeads.findSome? fun aead => aead.openWith iv ct with
    | some plain => .ok (some (plain,rest))
    | none => .error .segmentAuth

def readSegment (aeads : List AEAD) (src : Bytes) : Except SegError (Option (Bytes × Bytes)) :=
  match readFull frameHeaderLen src with
  | .error .eof => .ok none
  | .error .unexpectedEOF => .error .truncated
  | .ok (head,rest) =>
    let ctLen := value (head.drop ivLen)
    if maxCiphertextLen < ctLen then .error (.segmentTooLarge ctLen)
    else readBody aeads (head.take ivLen) ctLen rest

variable {aeads src plain rest}

theorem readBodyRest {iv ctLen} (step : readBody aeads iv ctLen src = .ok (some (plain,rest))) :
    rest.length ≤ src.length := by
  unfold readBody at step
  split at step
  · cases step
  next ct tail read =>
  split at step
  · cases step
    rw [(readFullOk read).2,length_append]
    exact Nat.le_add_left _ _
  · cases step

theorem readSegmentShorter (step : readSegment aeads src = .ok (some (plain,rest))) : rest.length < src.length := by
  unfold readSegment at step
  split at step
  · cases step
  · cases step
  next head body read =>
  simp only at step
  split at step
  · cases step
  obtain ⟨length,whole⟩ := readFullOk read
  have tail := readBodyRest step
  rw [whole,length_append,length,frameHeaderLen,ivLen]
  omega

def openReader (aeads : List AEAD) : Reader UInt8 SegError Bytes := ⟨readSegment aeads,readSegmentShorter⟩

def openBlob (aeads : List AEAD) (src : Bytes) : Except SegError Bytes :=
  if aeads = [] then .error .noCandidates
  else match aeads.find? fun aead => aead.nonceSize ≠ ivLen with
    | some aead => .error (.nonceSize aead.nonceSize)
    | none => do
      let rest ← readHeader src
      let segments ← (openReader aeads).drain rest
      return segments.flatten

end Scrinium.SegAead
