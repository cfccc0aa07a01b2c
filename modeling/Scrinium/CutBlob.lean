import Scrinium.SegTampering

/-! Truncated encrypted blobs as their readers see them: a cut whose read found no byte at all passes for the end of the
artifact. -/
namespace Scrinium.CutBlob
open List hiding after
open HexText (Bytes)
open FrameStream Option
open SegAead hiding readHeader readBody readSegment openReader

structure Failure where
  err : SegError
  wraps : Option Short
  deriving DecidableEq

def Failure.isEOF (f : Failure) : Bool := f.wraps = some .eof

def headerReadErr {α : Type} : Except Short α → Except Failure α
  | .ok a => .ok a
  | .error short => .error ⟨.truncated,some short⟩

def readHeader (src : Bytes) : Except Failure Bytes := do
  let (fixed,rest) ← headerReadErr (readFull fixedHeaderLen src)
  let (_,_,keyIDLen) ← (decodeFixedHeader fixed).mapError fun err => ⟨err,none⟩
  if 0 < keyIDLen then
    let (_,rest) ← headerReadErr (readFull keyIDLen rest)
    return rest
  else return rest

theorem readHeaderErr (src : Bytes) : SegAead.readHeader src = (readHeader src).mapError Failure.err := by
  unfold SegAead.readHeader readHeader
  cases readFull fixedHeaderLen src with
  | error short => rfl
  | ok parts =>
    simp only [headerRead,headerReadErr,bind,Except.bind]
    cases decodeFixedHeader parts.1 with
    | error err => rfl
    | ok fields =>
      simp only [Except.mapError]
      split
      · cases readFull fields.2.2 parts.2 <;> rfl
      · rfl

section
variable (aeads : List AEAD)
def readBody (iv : Bytes) (ctLen : Nat) (src : Bytes) : Except Failure (Option (Bytes × Bytes)) :=
  match readFull ctLen src with
  | .error short => .error ⟨.truncated,some short⟩
  | .ok (ct,rest) =>
    match aeads.findSome? fun aead => aead.openWith iv ct with
    | some plain => .ok (some (plain,rest))
    | none => .error ⟨.segmentAuth,none⟩

def readSegment (src : Bytes) : Except Failure (Option (Bytes × Bytes)) :=
  match readFull frameHeaderLen src with
  | .error .eof => .ok none
  -- the text of a torn frame header counts its bytes and wraps no read error
  | .error .unexpectedEOF => .error ⟨.truncated,none⟩
  | .ok (head,rest) =>
    let ctLen := value (head.drop ivLen)
    if maxCiphertextLen < ctLen then .error ⟨.segmentTooLarge ctLen,none⟩
    else readBody aeads (head.take ivLen) ctLen rest

theorem readSegmentErr (src : Bytes) :
    SegAead.readSegment aeads src = (readSegment aeads src).mapError Failure.err := by
  unfold SegAead.readSegment readSegment
  rcases readFull frameHeaderLen src with (_ | _) | ⟨head,rest⟩
  · rfl
  · rfl
  simp only
  split
  · rfl
  unfold SegAead.readBody readBody
  rcases readFull (value (head.drop ivLen)) rest with _ | ⟨ct,tail⟩
  · rfl
  simp only
  cases aeads.findSome? fun aead => aead.openWith (head.take ivLen) ct <;> rfl

def openReader : Reader UInt8 Failure Bytes :=
  ⟨readSegment aeads,fun step => readSegmentShorter (by rw [readSegmentErr,step]; rfl)⟩

def decrypt (blob : Bytes) : Bytes × Option Failure :=
  if aeads = [] then ([],some ⟨.noCandidates,none⟩)
  else match aeads.find? fun aead => aead.nonceSize ≠ ivLen with
    | some aead => ([],some ⟨.nonceSize aead.nonceSize,none⟩)
    | none => match readHeader blob with
      | .error failure => ([],some failure)
      | .ok rest =>
        let read := (openReader aeads).reads rest
        (read.1.flatten,read.2)

end

inductive ReadError where
  | source (failure : Failure)
  | library (text : String)
  deriving DecidableEq

def ReadError.isEOF : ReadError → Bool
  | .source failure => failure.isEOF
  | .library _ => false

/- The zstd library's reader: what it gives out over a source and the error it ends in. -/
structure Inflater where
  read : (input : Bytes) → (ending : Option Failure) → Bytes × Option ReadError
  passes : ∀ input failure, (read input (some failure)).2 = some (.source failure)

def transform (z : Inflater) (src : Bytes × Option Failure) : Bytes × Option ReadError :=
  let copied := z.read src.1 src.2
  (copied.1,copied.2.filter fun err => !err.isEOF)

inductive Stages where
  | aesgcm
  | zstdAesgcm
  deriving DecidableEq

def buildGet (z : Inflater) (stages : Stages) (aeads : List AEAD) (blob : Bytes) : Bytes × Option ReadError :=
  let opened := decrypt aeads blob
  match stages with
  | .aesgcm => (opened.1,opened.2.map .source)
  | .zstdAesgcm => transform z opened

/- io.CopyN over the handle; what is left of its error decides whether the staged file is kept. -/
def copyPrefix (rh : Bytes × Option ReadError) (n : Nat) : Except ReadError Bytes :=
  if n ≤ rh.1.length then .ok (rh.1.take n)
  else match rh.2.filter fun err => !err.isEOF with
    | some err => .error err
    | none => .ok rh.1

def Reported (rh : Bytes × Option ReadError) : Prop :=
  rh.2 ≠ none ∧ ∀ n, rh.1.length < n → ∃ err, copyPrefix rh n = .error err

def Boundary (header : Bytes) (frames : List Bytes) (n : Nat) : Prop :=
  ∃ whole later, frames = whole ++ later ∧ n = header.length + whole.flatten.length

def Hollow (header : Bytes) (frames : List Bytes) (n : Nat) : Prop :=
  n = 0 ∨ (n = fixedHeaderLen ∧ n < header.length) ∨
    ∃ whole frame later, frames = whole ++ frame::later ∧ n = header.length + whole.flatten.length + frameHeaderLen

theorem copyFails (rh : Bytes × Option ReadError) :
    (∀ n, rh.1.length < n → ∃ err, copyPrefix rh n = .error err) ↔ ∃ err, rh.2 = some err ∧ err.isEOF = false := by
  have past : ∀ n, rh.1.length < n → copyPrefix rh n = match rh.2.filter fun err => !err.isEOF with
      | some err => .error err
      | none => .ok rh.1 := fun n beyond => if_neg (Nat.not_le_of_lt beyond)
  constructor
  · intro fails
    obtain ⟨err,failed⟩ := fails _ (Nat.lt_succ_self _)
    rw [past _ (Nat.lt_succ_self _)] at failed
    split at failed
    · next kept =>
      obtain ⟨same,left⟩ := filter_eq_some_iff.mp kept
      exact ⟨_,same,by simpa using left⟩
    · cases failed
  · rintro ⟨err,same,left⟩ n beyond
    exact ⟨err,by rw [past n beyond,same,filter_some,left]; rfl⟩

theorem reportedIff {z stages aeads blob failure}
    (ends : (decrypt aeads blob).2 = some failure) :
    Reported (buildGet z stages aeads blob) ↔ failure.isEOF = false := by
  rw [Reported,copyFails]
  cases stages with
  | aesgcm => simp [buildGet,ends,ReadError.isEOF]
  | zstdAesgcm =>
    have passed := z.passes (decrypt aeads blob).1 failure
    cases eof : failure.isEOF <;> simp [buildGet,transform,ends,passed,ReadError.isEOF,eof,Option.filter]

section
variable {a aeads iv plain}
theorem readHead (sized : iv.length = ivLen) {ct : Bytes} (fits : ct.length ≤ maxCiphertextLen) (body : Bytes) :
    readSegment aeads (iv ++ bigEndian 4 ct.length ++ body) = readBody aeads iv ct.length body := by
  have take : (iv ++ bigEndian 4 ct.length).take ivLen = iv := take_left' sized
  have drop : (iv ++ bigEndian 4 ct.length).drop ivLen = bigEndian 4 ct.length := drop_left' sized
  simp only [readSegment,readFullAppend (headLength sized ct.length),take,drop,lengthField fits,
    if_neg (Nat.not_lt_of_le fits)]

variable {n}

theorem readFullEnds {left} {src : Bytes} (length : src.length = left) (cut : left < n) :
    ∃ short, readFull n src = .error short ∧ (short = .eof ↔ left = 0) := by
  subst length
  unfold readFull
  rw [if_neg (Nat.not_le_of_lt cut)]
  split
  · next empty => exact ⟨_,rfl,by simp [empty]⟩
  · next some' => exact ⟨_,rfl,by simp [some']⟩

structure Framed (aeads : List AEAD) (frame : Bytes) : Prop where
  whole : ∃ out, Parses (openReader aeads) frame out
  body : frameHeaderLen < frame.length
  torn : ∀ m, 0 < m → m < frame.length →
    ∃ failure, readSegment aeads (frame.take m) = .error failure ∧ (failure.isEOF = true ↔ m = frameHeaderLen)

theorem framed (ideal : Ideal a) (mem : a ∈ aeads) (sized : iv.length = ivLen) (some' : 0 < plain.length)
    (fits : plain.length ≤ maxSegmentSize) : Framed aeads (frameBytes iv (a.sealWith iv plain)) := by
  have within : (a.sealWith iv plain).length ≤ maxCiphertextLen := sealedFits ideal fits
  have grows := ideal.grows iv plain
  have head := headLength sized (a.sealWith iv plain).length
  have length : (frameBytes iv (a.sealWith iv plain)).length = frameHeaderLen + (a.sealWith iv plain).length := by
    rw [frameBytes,length_append,head]
  refine ⟨?_,by omega,fun m positive inside => ?_⟩
  · have opens : ((aeads.findSome? fun aead => aead.openWith iv (a.sealWith iv plain))).isSome :=
      List.findSome?_isSome_iff.mpr ⟨a,mem,by simp [ideal.opens]⟩
    obtain ⟨out,found⟩ := isSome_iff_exists.mp opens
    refine ⟨out,fun rest => ?_⟩
    show readSegment aeads _ = _
    rw [frameBytes,append_assoc,readHead sized within,readBody,readFullAppend rfl]
    simp only [found]
  · rw [frameBytes,take_append,head]
    rcases Nat.lt_or_ge m frameHeaderLen with early | late
    · have none : (a.sealWith iv plain).take (m - frameHeaderLen) = [] := by
        rw [Nat.sub_eq_zero_of_le (Nat.le_of_lt early),take_zero]
      have short : ((iv ++ bigEndian 4 (a.sealWith iv plain).length).take m).length = m := by
        rw [length_take_of_le (by omega)]
      rw [none,append_nil,readSegment,readFullShort (by omega) fun empty => by simp [empty] at short; omega]
      exact ⟨_,rfl,by simp [Failure.isEOF]; omega⟩
    · rw [take_of_length_le (by omega),readHead sized within]
      have short : ((a.sealWith iv plain).take (m - frameHeaderLen)).length = m - frameHeaderLen :=
        length_take_of_le (by omega)
      obtain ⟨end',failed,eof⟩ := readFullEnds (n := (a.sealWith iv plain).length) short (by omega)
      rw [readBody,failed]
      refine ⟨_,rfl,?_⟩
      simp only [Failure.isEOF,some.injEq,decide_eq_true_eq,eof]
      omega

theorem readHeaderTorn {h : Header} {header : Bytes} (ok : encodeHeader h = .ok header)
    (sized : h.segmentSize ≤ maxSegmentSize) (cut : n < header.length) :
    ∃ failure, readHeader (header.take n) = .error failure ∧ (failure.isEOF = true ↔ n = 0 ∨ n = fixedHeaderLen) := by
  obtain ⟨named,rfl⟩ := encodeHeaderOk ok
  rw [length_append,fixedLength] at cut
  rcases Nat.lt_or_ge n fixedHeaderLen with early | late
  · have short : ((fixedHeader h ++ h.keyID).take n).length = n :=
      length_take_of_le (by rw [length_append,fixedLength]; omega)
    obtain ⟨end',failed,eof⟩ := readFullEnds (n := fixedHeaderLen) short early
    refine ⟨⟨.truncated,some end'⟩,?_,?_⟩
    · simp only [readHeader,failed,headerReadErr,bind,Except.bind]
    · simp only [Failure.isEOF,some.injEq,decide_eq_true_eq,eof]
      omega
  · have short : (h.keyID.take (n - fixedHeaderLen)).length = n - fixedHeaderLen :=
      length_take_of_le (by omega)
    obtain ⟨end',failed,eof⟩ := readFullEnds (n := h.keyID.length) short (by omega)
    rw [take_append,fixedLength,take_of_length_le (by rw [fixedLength]; exact late)]
    refine ⟨⟨.truncated,some end'⟩,?_,?_⟩
    · simp only [readHeader,readFullAppend (fixedLength h),headerReadErr,bind,Except.bind,
        decodeFixed sized named,Except.mapError,if_pos (show 0 < h.keyID.length by omega),failed]
    · have positive : 0 < fixedHeaderLen := by decide
      simp only [Failure.isEOF,some.injEq,decide_eq_true_eq,eof]
      omega

end

section
variable {c} {p : SealParams} {src header frames aeads}
structure Parts (aeads : List AEAD) (header : Bytes) (frames : List Bytes) : Prop where
  keyed : aeads ≠ [] ∧ ∀ aead ∈ aeads, aead.nonceSize = ivLen
  whole : ∀ rest, readHeader (header ++ rest) = .ok rest
  torn : ∀ n, n < header.length → ∃ failure, readHeader (header.take n) = .error failure ∧
    (failure.isEOF = true ↔ n = 0 ∨ n = fixedHeaderLen)
  long : 0 < header.length
  framed : ∀ frame ∈ frames, Framed aeads frame

theorem sealedParts (ideal : Ideal p.aead) (mem : p.aead ∈ aeads) (sized : ∀ aead ∈ aeads, aead.nonceSize = ivLen)
    (ok : sealParts c p src = .ok (header,frames)) : Parts aeads header frames := by
  obtain ⟨_,size,segments,encoded,drained,rfl⟩ := sealPartsOk ok
  obtain ⟨_,short⟩ := segmentsOk drained
  refine ⟨⟨ne_nil_of_mem mem,sized⟩,fun rest => ?_,fun n cut => readHeaderTorn encoded size.2.2 cut,?_,
    fun frame made => ?_⟩
  · have read := readHeaderWhole encoded size.2.2 rest
    rw [readHeaderErr] at read
    exact Trace.mapErrorOk.mp read
  · rw [(encodeHeaderOk encoded).2,length_append,fixedLength]
    exact Nat.lt_of_lt_of_le (by decide) (Nat.le_add_right fixedHeaderLen _)
  · obtain ⟨i,bound,rfl⟩ := mem_mapIdx.mp made
    obtain ⟨some',fits⟩ := short _ (getElem_mem bound)
    exact framed ideal mem (segmentIVLength c p i _) some' (Nat.le_trans fits size.2.2)

theorem decryptReads (s : Parts aeads header frames) (blob : Bytes) :
    decrypt aeads blob = match readHeader blob with
      | .error failure => ([],some failure)
      | .ok rest => (((openReader aeads).reads rest).1.flatten,((openReader aeads).reads rest).2) := by
  have none : (aeads.find? fun aead => aead.nonceSize ≠ ivLen) = none :=
    List.find?_eq_none.mpr fun aead mem => by simp [s.keyed.2 aead mem]
  rw [decrypt,if_neg s.keyed.1,none]

theorem cutInFrame (s : Parts aeads header frames) {whole later frame m}
    (split : frames = whole ++ frame::later) (some' : 0 < m) (inside : m < frame.length) :
    ∃ failure, (decrypt aeads ((header ++ frames.flatten).take (header.length + whole.flatten.length + m))).2 =
      some failure ∧ (failure.isEOF = true ↔ m = frameHeaderLen) := by
  subst split
  obtain ⟨failure,failed,eof⟩ := (s.framed frame (by simp)).torn m some' inside
  refine ⟨failure,?_,eof⟩
  have intact : ∀ f ∈ whole, ∃ item, Parses (openReader aeads) f item :=
    fun f mem => (s.framed f (mem_append_left _ mem)).whole
  have torn : (openReader aeads).next (frame.take m) = .error failure := failed
  rw [Nat.add_assoc,take_length_add_append,takePlace (Nat.le_of_lt inside),decryptReads s,s.whole]
  show ((openReader aeads).reads _).2 = _
  rw [readsFrames intact,readsError torn]

/-- A truncated blob is reported by both pipelines, to a full read and to a prefix ejection alike, at every
cut but those that leave the open's next read without a single byte. -/
theorem cutReportedExactly (z : Inflater) (stages : Stages) (ideal : Ideal p.aead) (mem : p.aead ∈ aeads)
    (sized : ∀ aead ∈ aeads, aead.nonceSize = ivLen) (ok : sealParts c p src = .ok (header,frames)) (n : Nat)
    (short : n < (header ++ frames.flatten).length) (torn : ¬ Boundary header frames n) :
    Reported (buildGet z stages aeads ((header ++ frames.flatten).take n)) ↔ ¬ Hollow header frames n := by
  have s := sealedParts ideal mem sized ok
  rcases Nat.lt_or_ge n header.length with early | late
  · obtain ⟨failure,failed,eof⟩ := s.torn n early
    have ends : (decrypt aeads ((header ++ frames.flatten).take n)).2 = some failure := by
      rw [take_append_of_le_length (Nat.le_of_lt early),decryptReads s,failed]
    have hollow : Hollow header frames n ↔ n = 0 ∨ n = fixedHeaderLen := by
      constructor
      · rintro (empty | ⟨fixed,_⟩ | ⟨_,_,_,_,place⟩)
        · exact .inl empty
        · exact .inr fixed
        · omega
      · rintro (empty | fixed)
        · exact .inl empty
        · exact .inr (.inl ⟨fixed,early⟩)
    rw [reportedIff ends,hollow,← eof,Bool.not_eq_true]
  · rw [length_append] at short
    obtain ⟨whole,frame,later,m,split,inside,place⟩ := cutPlace frames (n := n - header.length) (by omega)
    have position : n = header.length + whole.flatten.length + m := by omega
    have some' : 0 < m := Nat.pos_of_ne_zero fun zero => torn ⟨whole,frame::later,split,by omega⟩
    obtain ⟨failure,ends,eof⟩ := cutInFrame s split some' inside
    rw [← position] at ends
    rw [reportedIff ends,← Bool.not_eq_true,eof]
    refine not_congr ⟨fun body => .inr (.inr ⟨whole,frame,later,split,by omega⟩),?_⟩
    rintro (empty | ⟨_,early⟩ | ⟨whole',frame',later',split',place'⟩)
    · omega
    · omega
    -- the same cut, read as one right after a frame header: it ends in an EOF, so the body is what is missing
    · have body := (s.framed frame' (by rw [split']; simp)).body
      obtain ⟨failure',ends',eof'⟩ := cutInFrame s split' (by decide) body
      rw [← place',ends] at ends'
      cases ends'
      exact eof.mp (eof'.mpr rfl)

end

def sampleInflater : Inflater := ⟨fun input ending => (input,ending.map .source),fun _ _ => rfl⟩

theorem tornHeaderReported : Reported (buildGet sampleInflater .zstdAesgcm [taggingAEAD]
    ((sampleHeader ++ [sampleFrame 0 [1,2],sampleFrame 1 [3,4]].flatten).take 5)) := by
  have length : sampleHeader.length = 13 := rfl
  refine (cutReportedExactly sampleInflater .zstdAesgcm taggingIdeal mem_cons_self (by decide) sampleParts 5
    (by decide) ?_).mpr ?_
  · rintro ⟨whole,later,_,place⟩
    omega
  · rintro (empty | ⟨fixed,_⟩ | ⟨whole,frame,later,_,place⟩)
    · cases empty
    · cases fixed
    · omega

theorem missingBodyUnreported :
    let blob := (sampleHeader ++ [sampleFrame 0 [1,2],sampleFrame 1 [3,4]].flatten).take 48
    sealParts sampleCrypto sampleParams [1,2,3,4] = .ok (sampleHeader,[sampleFrame 0 [1,2],sampleFrame 1 [3,4]]) ∧
      buildGet sampleInflater .zstdAesgcm [taggingAEAD] blob = ([1,2],none) ∧
      ∀ stages, copyPrefix (buildGet sampleInflater stages [taggingAEAD] blob) 4 = .ok [1,2] := by
  have header : readHeader ((sampleHeader ++ [sampleFrame 0 [1,2],sampleFrame 1 [3,4]].flatten).take 48) =
      .ok (sampleFrame 0 [1,2] ++ (sampleFrame 1 [3,4]).take 16) := by decide +kernel
  have first : (openReader [taggingAEAD]).next (sampleFrame 0 [1,2] ++ (sampleFrame 1 [3,4]).take 16) =
      .ok (some ([1,2],(sampleFrame 1 [3,4]).take 16)) := by decide +kernel
  have second : (openReader [taggingAEAD]).next ((sampleFrame 1 [3,4]).take 16) =
      .error ⟨.truncated,some .eof⟩ := by decide +kernel
  have opened : decrypt [taggingAEAD] ((sampleHeader ++ [sampleFrame 0 [1,2],sampleFrame 1 [3,4]].flatten).take 48) =
      ([1,2],some ⟨.truncated,some .eof⟩) := by
    have parts : Parts [taggingAEAD] sampleHeader _ := sealedParts taggingIdeal mem_cons_self (by decide) sampleParts
    rw [decryptReads parts,header]
    simp only [readsStep first,readsError second]
    rfl
  refine ⟨sampleParts,?_,fun stages => ?_⟩
  · rw [buildGet,opened]
    rfl
  · cases stages <;> rw [buildGet,opened] <;> rfl

end Scrinium.CutBlob
