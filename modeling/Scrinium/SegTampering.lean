import Scrinium.SegAead

/-! What a drained Open makes of a blob whose frames were dropped, repeated or reordered, or that was cut short. -/
namespace Scrinium.SegAead
open HexText (Bytes)
open FrameStream Trace List

section
variable {a} {iv plain : Bytes}
theorem sealedFits (ideal : Ideal a) (fits : plain.length ≤ maxSegmentSize) :
    (a.sealWith iv plain).length ≤ maxCiphertextLen := by
  have grows := ideal.grows iv plain
  have small := ideal.small
  unfold maxCiphertextLen
  omega

variable {ct : Bytes}

theorem lengthField (fits : ct.length ≤ maxCiphertextLen) : value (bigEndian 4 ct.length) = ct.length := by
  have bound : maxCiphertextLen < 256 ^ 4 := by decide
  rw [valueBigEndian]
  exact Nat.mod_eq_of_lt (Nat.lt_of_le_of_lt fits bound)

theorem headLength (sized : iv.length = ivLen) (n : Nat) : (iv ++ bigEndian 4 n).length = frameHeaderLen := by
  rw [length_append,bigEndianLength,sized]
  rfl

theorem readHead (sized : iv.length = ivLen) (fits : ct.length ≤ maxCiphertextLen) (aeads : List AEAD) (body : Bytes) :
    readSegment aeads (iv ++ bigEndian 4 ct.length ++ body) = readBody aeads iv ct.length body := by
  have take : (iv ++ bigEndian 4 ct.length).take ivLen = iv := take_left' sized
  have drop : (iv ++ bigEndian 4 ct.length).drop ivLen = bigEndian 4 ct.length := drop_left' sized
  simp only [readSegment,readFullAppend (headLength sized ct.length),take,drop,lengthField fits,
    if_neg (Nat.not_lt_of_le fits)]

variable (ideal : Ideal a) (sized : iv.length = ivLen) (fits : plain.length ≤ maxSegmentSize)
include ideal sized fits

theorem frameParses : Parses (openReader [a]) (frameBytes iv (a.sealWith iv plain)) plain := by
  intro rest
  show readSegment [a] _ = _
  rw [frameBytes,append_assoc,readHead sized (sealedFits ideal fits),readBody,readFullAppend rfl]
  simp [ideal.opens]

theorem frameTears : Tears (openReader [a]) (frameBytes iv (a.sealWith iv plain)) := by
  intro n positive inside
  refine ⟨.truncated,?_⟩
  show readSegment [a] _ = _
  rw [frameBytes,take_append,headLength sized]
  rw [frameBytes,length_append,headLength sized] at inside
  rcases Nat.lt_or_ge n frameHeaderLen with early | late
  · have short : ((iv ++ bigEndian 4 (a.sealWith iv plain).length).take n).length = n := by
      rw [length_take_of_le]
      rw [headLength sized]
      exact Nat.le_of_lt early
    have none : (a.sealWith iv plain).take (n - frameHeaderLen) = [] := by
      rw [Nat.sub_eq_zero_of_le (Nat.le_of_lt early),take_zero]
    rw [none,append_nil,readSegment,readFullShort]
    · rw [short]
      exact early
    · intro empty
      rw [empty] at short
      exact absurd short (Nat.ne_of_lt positive)
  · rw [take_of_length_le (by rw [headLength sized]; exact late),readHead sized (sealedFits ideal fits)]
    have short : ((a.sealWith iv plain).take (n - frameHeaderLen)).length < (a.sealWith iv plain).length := by
      rw [length_take]
      omega
    obtain ⟨_,cut⟩ := readFullLacking short
    rw [readBody,cut]

end

section

def fixedHeader (h : Header) : Bytes :=
  magic ++ [version] ++ [h.mode.byte] ++ bigEndian 4 h.segmentSize ++ bigEndian 2 h.keyID.length

theorem fixedLength (h : Header) : (fixedHeader h).length = fixedHeaderLen := by
  simp [fixedHeader,bigEndianLength,magic,fixedHeaderLen]

variable {h header}

theorem decodeFixed (sized : h.segmentSize ≤ maxSegmentSize) (named : h.keyID.length ≤ maxKeyIDLen) :
    decodeFixedHeader (fixedHeader h) = .ok (h.mode,h.segmentSize,h.keyID.length) := by
  have parts : fixedHeader h =
      0x00::0x53::0x42::0x31::version::h.mode.byte::(bigEndian 4 h.segmentSize ++ bigEndian 2 h.keyID.length) := by
    simp [fixedHeader,magic]
  have long : ¬ (fixedHeader h).length < fixedHeaderLen := by rw [fixedLength]; exact Nat.lt_irrefl _
  have mode : IVMode.ofByte h.mode.byte = some h.mode := by cases h.mode <;> rfl
  have size : value ((bigEndian 4 h.segmentSize ++ bigEndian 2 h.keyID.length).take 4) = h.segmentSize := by
    rw [take_left' (bigEndianLength 4 _),valueBigEndian]
    exact Nat.mod_eq_of_lt (Nat.lt_of_le_of_lt sized (by decide))
  have keyed : value (((bigEndian 4 h.segmentSize ++ bigEndian 2 h.keyID.length).drop 4).take 2) = h.keyID.length := by
    rw [drop_left' (bigEndianLength 4 _),take_of_length_le (Nat.le_of_eq (bigEndianLength 2 _)),valueBigEndian]
    exact Nat.mod_eq_of_lt (Nat.lt_of_le_of_lt named (by decide))
  rw [decodeFixedHeader,if_neg long,parts]
  simp [magic,mode,size,keyed,Nat.not_lt_of_le sized]

theorem encodeHeaderOk (ok : encodeHeader h = .ok header) :
    h.keyID.length ≤ maxKeyIDLen ∧ header = fixedHeader h ++ h.keyID := by
  unfold encodeHeader at ok
  split at ok
  · cases ok
  · next named => exact ⟨Nat.le_of_not_lt named,(Except.ok.inj ok).symm⟩

variable (ok : encodeHeader h = .ok header) (sized : h.segmentSize ≤ maxSegmentSize)
include ok sized

theorem readHeaderWhole (rest : Bytes) : readHeader (header ++ rest) = .ok rest := by
  obtain ⟨named,rfl⟩ := encodeHeaderOk ok
  have read : readFull fixedHeaderLen (fixedHeader h ++ (h.keyID ++ rest)) = .ok (fixedHeader h,h.keyID ++ rest) :=
    readFullAppend (fixedLength h)
  rw [append_assoc]
  simp only [readHeader,read,headerRead,bind,Except.bind,decodeFixed sized named]
  split
  · rw [readFullAppend rfl]
    rfl
  · next empty =>
    rw [length_eq_zero_iff.mp (Nat.eq_zero_of_not_pos empty)]
    rfl

theorem readHeaderCut {n} (cut : n < header.length) : readHeader (header.take n) = .error .truncated := by
  obtain ⟨named,rfl⟩ := encodeHeaderOk ok
  rw [length_append,fixedLength] at cut
  rcases Nat.lt_or_ge n fixedHeaderLen with early | late
  · have short : ((fixedHeader h ++ h.keyID).take n).length < fixedHeaderLen := by
      rw [length_take]
      omega
    obtain ⟨_,failed⟩ := readFullLacking short
    simp only [readHeader,failed,headerRead,bind,Except.bind]
  · have short : (h.keyID.take (n - fixedHeaderLen)).length < h.keyID.length := by
      rw [length_take]
      omega
    obtain ⟨_,failed⟩ := readFullLacking short
    rw [take_append,fixedLength,take_of_length_le (by rw [fixedLength]; exact late)]
    have named' : 0 < h.keyID.length := Nat.lt_of_le_of_lt (Nat.zero_le _) short
    simp only [readHeader,readFullAppend (fixedLength h),headerRead,bind,Except.bind,decodeFixed sized named,
      if_pos named',failed]

end

section
variable {c} {p : SealParams} {src header frames}
theorem segmentIVLength (c : Primitives) (p : SealParams) (index : Nat) (plain : Bytes) :
    (segmentIV c p index plain).length = ivLen := by
  unfold segmentIV
  split
  · exact c.randomLength index
  · rw [convergentIV,length_take,c.hmacLength]
    rfl

variable {segments : List Bytes}

theorem segmentsOk {size} (ok : (plainSegments size).drain src = .ok segments) :
    segments.flatten = src ∧ ∀ segment ∈ segments, 0 < segment.length ∧ segment.length ≤ size.1 := by
  refine drainInduction (r := plainSegments size)
    (motive := fun src segments => segments.flatten = src ∧
      ∀ segment ∈ segments, 0 < segment.length ∧ segment.length ≤ size.1) ?_ ?_ ok
  · intro src done
    have empty : src = [] := by
      simp only [plainSegments] at done
      split at done
      · cases done
      · cases done
      · next failed => exact readFullEof failed
    simp [empty]
  · intro src item rest items step ih
    have first : src = item ++ rest ∧ item.length ≤ size.1 := by
      simp only [plainSegments] at step
      split at step
      · next read =>
        cases step
        obtain ⟨length,whole⟩ := readFullOk read
        exact ⟨whole,Nat.le_of_eq length⟩
      · next failed =>
        cases step
        refine ⟨(append_nil _).symm,Nat.le_of_not_le fun fits => ?_⟩
        simp [readFull,fits] at failed
      · cases step
    have shorter := (plainSegments size).shorter step
    rw [first.1,length_append] at shorter
    refine ⟨by rw [flatten_cons,ih.1,first.1],fun segment mem => ?_⟩
    rcases mem_cons.mp mem with rfl | later
    · exact ⟨by omega,first.2⟩
    · exact ih.2 segment later

theorem sealPartsOk (ok : sealParts c p src = .ok (header,frames)) :
    p.aead.nonceSize = ivLen ∧ ∃ size segments, encodeHeader ⟨p.mode,size.1,p.keyID⟩ = .ok header ∧
      (plainSegments size).drain src = .ok segments ∧ frames = segments.mapIdx (sealSegment c p) := by
  unfold sealParts at ok
  split at ok
  · cases ok
  next nonce =>
  split at ok
  · cases ok
  obtain ⟨size,_,rest⟩ := bindOk.mp ok
  obtain ⟨_,encoded,rest⟩ := bindOk.mp rest
  obtain ⟨segments,drained,last⟩ := bindOk.mp rest
  cases last
  exact ⟨not_not.mp nonce,size,segments,encoded,drained,rfl⟩

section
variable (ideal : Ideal p.aead) (fits : ∀ segment ∈ segments, segment.length ≤ maxSegmentSize)
include ideal fits
theorem framesParse : List.Forall₂ (Parses (openReader [p.aead])) (segments.mapIdx (sealSegment c p)) segments := by
  suffices h : ∀ start, List.Forall₂ (Parses (openReader [p.aead]))
      (segments.mapIdx fun i => sealSegment c p (i + start)) segments from h 0
  induction segments with
  | nil => exact fun _ => .nil
  | cons segment rest ih =>
    intro start
    rw [mapIdx_cons]
    refine .cons (frameParses ideal (segmentIVLength c p _ segment) (fits segment mem_cons_self)) ?_
    have shifted := ih (fun s mem => fits s (mem_cons_of_mem segment mem)) (start + 1)
    simpa only [Nat.add_assoc,Nat.add_comm 1] using shifted

theorem frameSound {frame} (mem : frame ∈ segments.mapIdx (sealSegment c p)) :
    (∃ segment, Parses (openReader [p.aead]) frame segment) ∧ Tears (openReader [p.aead]) frame := by
  obtain ⟨i,bound,rfl⟩ := mem_mapIdx.mp mem
  have short := fits _ (getElem_mem bound)
  have sized := segmentIVLength c p i (segments[i])
  exact ⟨⟨_,frameParses ideal sized short⟩,frameTears ideal sized short⟩

end

theorem openOne {a} (nonce : a.nonceSize = ivLen) (blob : Bytes) :
    openBlob [a] blob = do
      let rest ← readHeader blob
      let segments ← (openReader [a]).drain rest
      return segments.flatten := by
  simp [openBlob,nonce]

theorem readEnd (aeads : List AEAD) : (openReader aeads).next [] = .ok none := rfl

structure Sealed (a : AEAD) (src header : Bytes) (frames : List Bytes) : Prop where
  whole : ∀ rest, readHeader (header ++ rest) = .ok rest
  torn : ∀ n, n < header.length → readHeader (header.take n) = .error .truncated
  nonce : a.nonceSize = ivLen
  sound : ∀ frame ∈ frames, (∃ segment, Parses (openReader [a]) frame segment) ∧ Tears (openReader [a]) frame
  segments : ∃ segments, List.Forall₂ (Parses (openReader [a])) frames segments ∧ segments.flatten = src

theorem sealedParts (ideal : Ideal p.aead) (ok : sealParts c p src = .ok (header,frames)) :
    Sealed p.aead src header frames := by
  obtain ⟨nonce,size,segments,encoded,drained,rfl⟩ := sealPartsOk ok
  obtain ⟨whole,short⟩ := segmentsOk drained
  have fits : ∀ segment ∈ segments, segment.length ≤ maxSegmentSize :=
    fun segment mem => Nat.le_trans (short segment mem).2 size.2.2
  exact ⟨readHeaderWhole encoded size.2.2,fun n cut => readHeaderCut encoded size.2.2 cut,nonce,
    fun frame mem => frameSound ideal fits mem,segments,framesParse ideal fits,whole⟩

variable {a} {kept : List Bytes}

variable (s : Sealed a src header frames)
include s

theorem keptParse (inside : ∀ frame ∈ kept, frame ∈ frames) :
    ∃ segments, List.Forall₂ (Parses (openReader [a])) kept segments := by
  induction kept with
  | nil => exact ⟨[],.nil⟩
  | cons frame rest ih =>
    obtain ⟨segments,parsed⟩ := ih fun f mem => inside f (mem_cons_of_mem frame mem)
    obtain ⟨segment,first⟩ := (s.sound frame (inside frame mem_cons_self)).1
    exact ⟨segment::segments,.cons first parsed⟩

theorem wholeOpens (inside : ∀ frame ∈ kept, frame ∈ frames) :
    ∃ out, openBlob [a] (header ++ kept.flatten) = .ok out := by
  obtain ⟨segments,parsed⟩ := keptParse s inside
  have drained := drainFrames parsed []
  rw [append_nil,drainEnd (readEnd [a])] at drained
  simp only [openOne s.nonce,s.whole,drained,bind,Except.bind]
  exact ⟨_,rfl⟩

theorem sealedOpens : openBlob [a] (header ++ frames.flatten) = .ok src := by
  obtain ⟨segments,parsed,whole⟩ := s.segments
  have drained := drainFrames parsed []
  rw [append_nil,drainEnd (readEnd [a])] at drained
  simp only [openOne s.nonce,s.whole,drained,bind,Except.bind,Except.map,append_nil,whole]
  rfl

theorem cutOpens (inside : ∀ frame ∈ kept, frame ∈ frames) (n : Nat) :
    (∃ left : List Bytes, (∀ frame ∈ left, frame ∈ frames) ∧ (header ++ kept.flatten).take n = header ++ left.flatten) ∨
      ∃ err, openBlob [a] ((header ++ kept.flatten).take n) = .error err := by
  rw [take_append]
  rcases Nat.lt_or_ge n header.length with early | late
  · have none : kept.flatten.take (n - header.length) = [] := by
      rw [Nat.sub_eq_zero_of_le (Nat.le_of_lt early),take_zero]
    rw [none,append_nil]
    refine .inr ⟨.truncated,?_⟩
    simp only [openOne s.nonce,s.torn n early,bind,Except.bind]
  · rw [take_of_length_le late]
    obtain ⟨left,first,cut⟩ := cutFrames kept (n - header.length)
    have still : ∀ frame ∈ left, frame ∈ frames := fun frame mem => inside frame (first.subset mem)
    rcases cut with even | ⟨frame,mem,m,some',short,torn⟩
    · exact .inl ⟨left,still,by rw [even]⟩
    obtain ⟨segments,parsed⟩ := keptParse s still
    obtain ⟨err,failed⟩ := (s.sound frame (inside frame mem)).2 m some' short
    have drained := drainFrames parsed (frame.take m)
    rw [drainError failed] at drained
    refine .inr ⟨err,?_⟩
    simp only [torn,openOne s.nonce,s.whole,drained,bind,Except.bind,Except.map]

end

def Tampered (c : Primitives) (p : SealParams) (src blob : Bytes) : Prop :=
  ∃ header frames, sealParts c p src = .ok (header,frames) ∧
    ∃ (kept : List Bytes) (n : Nat), (∀ frame ∈ kept, frame ∈ frames) ∧ blob = (header ++ kept.flatten).take n

def WholeFrames (c : Primitives) (p : SealParams) (src blob : Bytes) : Prop :=
  ∃ header frames, sealParts c p src = .ok (header,frames) ∧
    ∃ kept : List Bytes, (∀ frame ∈ kept, frame ∈ frames) ∧ blob = header ++ kept.flatten

def Detected (a : AEAD) (src sealed blob : Bytes) : Prop :=
  (blob ≠ sealed → ∃ err, openBlob [a] blob = .error err) ∧ ∀ out, openBlob [a] blob = .ok out → out = src

/-- Tampering with a sealed blob is detected exactly where it left the blob as it was or cut it inside
the header or a frame. -/
theorem tamperingDetectedExactly (c : Primitives) (p : SealParams) (src sealed blob : Bytes) (ideal : Ideal p.aead)
    (ok : sealBlob c p src = .ok sealed) (tampered : Tampered c p src blob) :
    Detected p.aead src sealed blob ↔ blob = sealed ∨ ¬ WholeFrames c p src blob := by
  obtain ⟨header,frames,parts,kept,n,inside,rfl⟩ := tampered
  have whole : sealed = header ++ frames.flatten := by
    obtain ⟨pair,same,last⟩ := bindOk.mp ok
    cases okSame parts same
    exact (Except.ok.inj last).symm
  have s := sealedParts ideal parts
  refine ⟨fun detected => ?_,fun condition => ?_⟩
  · by_cases same : (header ++ kept.flatten).take n = sealed
    · exact .inl same
    refine .inr fun frames' => ?_
    obtain ⟨header',frames',parts',left,still,cut⟩ := frames'
    cases okSame parts parts'
    obtain ⟨err,failed⟩ := detected.1 same
    obtain ⟨out,opened⟩ := wholeOpens s still
    rw [cut,opened] at failed
    cases failed
  · rcases condition with same | torn
    · refine ⟨fun other => absurd same other,fun out opened => ?_⟩
      rw [same,whole,sealedOpens s] at opened
      exact (Except.ok.inj opened).symm
    · rcases cutOpens s inside n with ⟨left,still,cut⟩ | ⟨err,failed⟩
      · exact absurd ⟨header,frames,parts,left,still,cut⟩ torn
      · refine ⟨fun _ => ⟨err,failed⟩,fun out opened => ?_⟩
        rw [failed] at opened
        cases opened

def taggingAEAD : AEAD :=
  { nonceSize := 12, overhead := 1, sealWith := fun iv plain => iv.headD 0::plain
    openWith := fun iv ct => match ct with
      | tag::plain => if tag = iv.headD 0 then some plain else none
      | [] => none }

theorem taggingIdeal : Ideal taggingAEAD where
  opens iv plain := by simp [taggingAEAD]
  only iv ct plain opened := by
    cases ct with
    | nil => cases opened
    | cons tag rest =>
      simp only [taggingAEAD] at opened ⊢
      split at opened
      · next same => rw [same,Option.some.inj opened]
      · cases opened
  grows _ _ := rfl
  small := by decide

def sampleCrypto : Primitives :=
  { sha256 := id, hmac := fun _ _ => List.replicate 32 7, hmacLength := fun _ _ => rfl
    randomIV := fun draw => draw.toUInt8::List.replicate 11 0, randomLength := fun _ => rfl }

def sampleParams : SealParams := ⟨taggingAEAD,.random,[],[0x6b],2⟩
def sampleHeader : Bytes := [0x00,0x53,0x42,0x31,1,0,0,0,0,2,0,1,0x6b]
def sampleFrame (draw : UInt8) (segment : Bytes) : Bytes := frameBytes (draw::List.replicate 11 0) (draw::segment)

theorem sampleParts : sealParts sampleCrypto sampleParams [1,2,3,4] =
    .ok (sampleHeader,[sampleFrame 0 [1,2],sampleFrame 1 [3,4]]) := by
  have segments : (plainSegments ⟨2,by decide⟩).drain [1,2,3,4] = .ok [[1,2],[3,4]] := by
    have first : (plainSegments ⟨2,by decide⟩).next [1,2,3,4] = .ok (some ([1,2],[3,4])) := rfl
    have second : (plainSegments ⟨2,by decide⟩).next [3,4] = .ok (some ([3,4],[])) := rfl
    rw [drainStep first,drainStep second,drainEnd rfl]
    rfl
  have size : segmentSizeOf sampleParams.segmentSize = .ok ⟨2,by decide⟩ := rfl
  unfold sealParts
  rw [if_neg (by decide),if_neg (by decide),size]
  simp only [bind,Except.bind]
  rw [segments]
  rfl

theorem sampleSealed : sealBlob sampleCrypto sampleParams [1,2,3,4] =
    .ok (sampleHeader ++ sampleFrame 0 [1,2] ++ sampleFrame 1 [3,4]) := by
  rw [sealBlob,sampleParts]
  rfl

theorem droppedFrameOpens :
    Ideal taggingAEAD ∧
    sealBlob sampleCrypto sampleParams [1,2,3,4] = .ok (sampleHeader ++ sampleFrame 0 [1,2] ++ sampleFrame 1 [3,4]) ∧
    Tampered sampleCrypto sampleParams [1,2,3,4] (sampleHeader ++ sampleFrame 0 [1,2]) ∧
    openBlob [taggingAEAD] (sampleHeader ++ sampleFrame 0 [1,2]) = .ok [1,2] ∧
    ¬ Detected taggingAEAD [1,2,3,4] (sampleHeader ++ sampleFrame 0 [1,2] ++ sampleFrame 1 [3,4])
      (sampleHeader ++ sampleFrame 0 [1,2]) := by
  have opened : openBlob [taggingAEAD] (sampleHeader ++ sampleFrame 0 [1,2]) = .ok [1,2] := by
    have sealed := sealedParts taggingIdeal sampleParts
    have sized : (0::List.replicate 11 0 : Bytes).length = ivLen := rfl
    have fits : ([1,2] : Bytes).length ≤ maxSegmentSize := by decide
    have step : (openReader [taggingAEAD]).next (sampleFrame 0 [1,2]) = .ok (some ([1,2],[])) :=
      frameParses taggingIdeal sized fits []
    rw [openOne rfl,sealed.whole]
    simp only [bind,Except.bind]
    rw [drainStep step,drainEnd rfl]
    rfl
  exact ⟨taggingIdeal,sampleSealed,⟨_,_,sampleParts,[sampleFrame 0 [1,2]],40,by simp,rfl⟩,opened,
    fun detected => absurd (detected.2 [1,2] opened) (by decide)⟩

theorem cutFrameDetected :
    Tampered sampleCrypto sampleParams [1,2,3,4] ((sampleHeader ++ sampleFrame 0 [1,2]).take 20) ∧
    (Detected taggingAEAD [1,2,3,4] (sampleHeader ++ sampleFrame 0 [1,2] ++ sampleFrame 1 [3,4])
        ((sampleHeader ++ sampleFrame 0 [1,2]).take 20) ↔
      (sampleHeader ++ sampleFrame 0 [1,2]).take 20 = sampleHeader ++ sampleFrame 0 [1,2] ++ sampleFrame 1 [3,4] ∨
        ¬ WholeFrames sampleCrypto sampleParams [1,2,3,4] ((sampleHeader ++ sampleFrame 0 [1,2]).take 20)) := by
  have tampered : Tampered sampleCrypto sampleParams [1,2,3,4] ((sampleHeader ++ sampleFrame 0 [1,2]).take 20) :=
    ⟨_,_,sampleParts,[sampleFrame 0 [1,2]],20,by simp,rfl⟩
  exact ⟨tampered,tamperingDetectedExactly sampleCrypto sampleParams [1,2,3,4] _ _ taggingIdeal sampleSealed tampered⟩

end Scrinium.SegAead
