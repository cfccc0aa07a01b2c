import Mathlib.Data.Set.Function
import Scrinium.SealStream

/-! Convergent sealing: the blob is a function of the key, its id, the segment size and the plaintext, and no IV is used
for two different segments. -/
namespace Scrinium.SegAead
open HexText (Bytes)
open ChunkedStream (Source drain)
open FrameStream

def ivMessage (c : Primitives) (keyID plain : Bytes) (index : Nat) : Bytes := c.sha256 plain ++ keyID ++ bigEndian 8 index
def cutMac (c : Primitives) (dek message : Bytes) : Bytes := (c.hmac dek message).take ivLen

section
variable {c c' : Primitives} {p : SealParams}

variable {i j : UInt64}

theorem placeInjective (same : bigEndian 8 i.toNat = bigEndian 8 j.toNat) : i = j := by
  have values := congrArg value same
  have width : (256 : Nat) ^ 8 = 2 ^ 64 := by decide
  rw [valueBigEndian,valueBigEndian,width,Nat.mod_eq_of_lt i.toNat_lt,Nat.mod_eq_of_lt j.toNat_lt] at values
  exact UInt64.toNat_inj.mp values

theorem messageParts {keyID plain plain'} (same : ivMessage c keyID plain i.toNat = ivMessage c keyID plain' j.toNat) :
    c.sha256 plain = c.sha256 plain' ∧ i = j := by
  have widths : (bigEndian 8 i.toNat).length = (bigEndian 8 j.toNat).length := by rw [bigEndianLength,bigEndianLength]
  obtain ⟨front,place⟩ := List.append_inj' same widths
  exact ⟨(List.append_inj' front rfl).1,placeInjective place⟩

variable (convergent : p.mode = .convergent) (hashes : c.sha256 = c'.sha256) (macs : c.hmac = c'.hmac)
include convergent hashes macs

theorem convergentSegment : sealSegment c p = sealSegment c' p := by
  funext index plain
  have iv : segmentIV c p index plain = segmentIV c' p index plain := by
    simp only [segmentIV,convergent,convergentIV,hashes,macs]
  simp only [sealSegment,iv]

theorem convergentBlob (src : Bytes) : sealBlob c p src = sealBlob c' p src := by
  simp only [sealBlob,sealParts,convergentSegment convergent hashes macs]

end

theorem frameIV (c : Primitives) (p : SealParams) (index : Nat) (plain : Bytes) :
    (sealSegment c p index plain).take ivLen = segmentIV c p index plain := by
  rw [sealSegment,frameBytes,List.append_assoc,← segmentIVLength c p index plain,List.take_left]

/-- Under one key and key id the same plaintext in any pieces gives the same blob; the blob is a header and the frames of
the segments in their order, and where neither the inner hash nor the keyed hash collides the IV that a frame starts with
determines the segment and its place. -/
theorem convergentSealing (gcm : Bytes → AEAD) (dek keyID : Bytes) :
    (∀ (segmentSize : Int) (c c' : Primitives) (src src' : Source UInt8) (e e' : SealReader) (sizes sizes' : List Nat) (r r' : Report),
      c.sha256 = c'.sha256 → c.hmac = c'.hmac → src.left = src'.left → src.ending = .eof → src'.ending = .eof →
      src.seen = [] → src'.seen = [] →
      newSealReader ⟨gcm dek,.convergent,dek,keyID,segmentSize⟩ src = .ok e →
      newSealReader ⟨gcm dek,.convergent,dek,keyID,segmentSize⟩ src' = .ok e' →
      (drain (SealReader.read c) sizes e).2.1 = some r → (drain (SealReader.read c') sizes' e').2.1 = some r' →
      (drain (SealReader.read c) sizes e).1.flatten = (drain (SealReader.read c') sizes' e').1.flatten) ∧
    (∀ (segmentSize : Int) (c : Primitives) (src : Source UInt8) (e : SealReader) (sizes : List Nat) (r : Report),
      src.ending = .eof → src.seen = [] → newSealReader ⟨gcm dek,.convergent,dek,keyID,segmentSize⟩ src = .ok e →
      (drain (SealReader.read c) sizes e).2.1 = some r →
      ∃ (size : SegmentSize) (header : Bytes) (segments : List Bytes), encodeHeader ⟨.convergent,size.1,keyID⟩ = .ok header ∧
        (plainSegments size).drain src.left = .ok segments ∧
        (drain (SealReader.read c) sizes e).1.flatten =
          header ++ (segments.mapIdx (sealSegment c ⟨gcm dek,.convergent,dek,keyID,segmentSize⟩)).flatten) ∧
    ∀ (c : Primitives) (segments : Set (Bytes × UInt64)),
      Set.InjOn c.sha256 (Prod.fst '' segments) →
      Set.InjOn (cutMac c dek) ((fun s => ivMessage c keyID s.1 s.2.toNat) '' segments) →
      ∀ s ∈ segments, ∀ t ∈ segments, ∀ size size' : Int,
        (sealSegment c ⟨gcm dek,.convergent,dek,keyID,size⟩ s.2.toNat s.1).take ivLen =
          (sealSegment c ⟨gcm dek,.convergent,dek,keyID,size'⟩ t.2.toNat t.1).take ivLen → s = t := by
  refine ⟨?_,?_,?_⟩
  · intro segmentSize c c' src src' e e' sizes sizes' r r' hashes macs same ending ending' fresh fresh' ready ready' drained drained'
    obtain ⟨blob,sealed,_,gave,_⟩ := sealDrained ready ending fresh drained
    obtain ⟨blob',sealed',_,gave',_⟩ := sealDrained ready' ending' fresh' drained'
    rw [same,convergentBlob rfl hashes macs,sealed'] at sealed
    rw [gave,gave',Except.ok.inj sealed]
  · intro segmentSize c src e sizes r ending fresh ready drained
    obtain ⟨blob,sealed,_,gave,_⟩ := sealDrained ready ending fresh drained
    obtain ⟨⟨header,frames⟩,parts,last⟩ := Trace.bindOk.mp sealed
    obtain ⟨_,size,segments,encoded,split,rfl⟩ := sealPartsOk parts
    cases last
    exact ⟨size,header,segments,encoded,split,gave⟩
  · intro c segments hash mac s hs t ht size size' iv
    rw [frameIV,frameIV] at iv
    have message := mac (Set.mem_image_of_mem _ hs) (Set.mem_image_of_mem _ ht) iv
    obtain ⟨inner,place⟩ := messageParts message
    exact Prod.ext (hash (Set.mem_image_of_mem _ hs) (Set.mem_image_of_mem _ ht) inner) place

def paddingCrypto : Primitives :=
  { sha256 := id, hmac := fun _ m => (m ++ List.replicate 32 0).take 32, hmacLength := fun _ _ => by simp
    randomIV := fun _ => List.replicate 12 0, randomLength := fun _ => rfl }

def splitSource : Source UInt8 := ⟨[[1],[],[2,3]],.eof,true,[]⟩
def wholeSource : Source UInt8 := ⟨[[1,2,3]],.eof,false,[]⟩

def convergentReader (src : Source UInt8) : SealReader :=
  ⟨src,⟨taggingAEAD,.convergent,[9],[0x6b],2⟩,2,[0x00,0x53,0x42,0x31,1,1,0,0,0,2,0,1,0x6b],0,false,0,none⟩

theorem chunkingsAgree :
    (drain (SealReader.read paddingCrypto) (List.replicate 60 1) (convergentReader splitSource)).1.flatten =
      (drain (SealReader.read paddingCrypto) (List.replicate 9 16) (convergentReader wholeSource)).1.flatten ∧
    (sealSegment paddingCrypto ⟨taggingAEAD,.convergent,[9],[0x6b],2⟩ 0 [1,2]).take ivLen ≠
      (sealSegment paddingCrypto ⟨taggingAEAD,.convergent,[9],[0x6b],2⟩ 1 [1,2]).take ivLen := by
  obtain ⟨runs,_,ivs⟩ := convergentSealing (fun _ => taggingAEAD) [9] [0x6b]
  refine ⟨runs 2 _ _ splitSource wholeSource _ _ _ _ .eof .eof rfl rfl rfl rfl rfl rfl rfl rfl rfl (by decide +kernel) (by decide +kernel),
    fun same => ?_⟩
  have mac : Set.InjOn (cutMac paddingCrypto [9])
      ((fun s : Bytes × UInt64 => ivMessage paddingCrypto [0x6b] s.1 s.2.toNat) '' {([1,2],0),([1,2],1)}) := by
    rw [Set.image_pair]
    intro m hm m' hm' cut
    rcases hm with rfl | rfl <;> rcases hm' with rfl | rfl
    · rfl
    · exact absurd cut (by decide +kernel)
    · exact absurd cut (by decide +kernel)
    · rfl
  have clash := ivs paddingCrypto {([1,2],0),([1,2],1)} (Function.injective_id.injOn) mac ([1,2],0) (.inl rfl) ([1,2],1) (.inr rfl) 2 2 same
  exact absurd clash (by decide)

end Scrinium.SegAead
