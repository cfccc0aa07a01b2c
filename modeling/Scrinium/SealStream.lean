import Scrinium.ChunkedStream
import Scrinium.SegTampering

/-! Seal and Open as the readers they are (seal.go, open.go), over sources and to callers of any pieces. -/
namespace Scrinium.SegAead
open List hiding after
open HexText (Bytes)
open Trace FrameStream
open ChunkedStream (Source Stop Handed Gives drain calls drainGives drainCalls bufferedGives)

inductive Report where
  | eof
  | source
  | format (err : SegError)
  deriving DecidableEq

section
variable {a others}

variable {src plain}

theorem firstReads {rest} (one : readSegment [a] src = .ok (some (plain,rest))) :
    readSegment (a::others) src = .ok (some (plain,rest)) := by
  unfold readSegment at one ⊢
  split at one
  · cases one
  · cases one
  simp only at one ⊢
  split at one
  · cases one
  next fits =>
  rw [if_neg fits]
  unfold readBody at one ⊢
  split at one
  · cases one
  next ct tail _ =>
  simp only [List.findSome?_cons] at one ⊢
  cases opened : a.openWith _ ct with
  | none => simp [opened] at one
  | some found =>
    simp only [opened] at one ⊢
    exact one

theorem endsAt {aeads} (finish : readSegment aeads src = .ok none) : readFull frameHeaderLen src = .error .eof := by
  unfold readSegment at finish
  split at finish
  · assumption
  · cases finish
  simp only at finish
  split at finish
  · cases finish
  unfold readBody at finish
  split at finish
  · cases finish
  · split at finish <;> cases finish

theorem firstEnds (one : readSegment [a] src = .ok none) : readSegment (a::others) src = .ok none := by
  unfold readSegment
  rw [endsAt one]

theorem firstOpens {blob} (sized : ∀ b ∈ others, b.nonceSize = ivLen) (one : openBlob [a] blob = .ok plain) :
    openBlob (a::others) blob = .ok plain := by
  have nonce : a.nonceSize = ivLen := by
    by_contra other
    simp [openBlob,other] at one
  rw [openOne nonce] at one
  obtain ⟨rest,header,more⟩ := bindOk.mp one
  obtain ⟨segments,drained,last⟩ := bindOk.mp more
  have all : (openReader (a::others)).drain rest = .ok segments := by
    refine drainInduction (r := openReader [a]) (motive := fun src items => (openReader (a::others)).drain src = .ok items)
      (fun src finish => drainEnd (firstEnds finish)) (fun src item rest items step ih => ?_) drained
    rw [drainStep (r := openReader (a::others)) (firstReads step),ih]
    rfl
  have found : (a::others).find? (fun aead => aead.nonceSize ≠ ivLen) = none := by
    rw [List.find?_eq_none]
    intro b mem
    rcases mem_cons.mp mem with rfl | mem
    · simp [nonce]
    · simp [sized b mem]
  simp only [openBlob,cons_ne_nil,if_false,found,header,all,bind,Except.bind]
  exact last

end

structure SealReader where
  src : Source UInt8
  params : SealParams
  segSize : Nat
  pending : Bytes
  index : Nat
  srcDone : Bool
  written : Nat
  err : Option Report

def newSealReader (p : SealParams) (src : Source UInt8) : Except SegError SealReader :=
  if p.aead.nonceSize ≠ ivLen then .error (.nonceSize p.aead.nonceSize)
  else if p.mode = .convergent ∧ p.dek = [] then .error .missingDEK
  else do
    let size ← segmentSizeOf p.segmentSize
    let header ← encodeHeader ⟨p.mode,size.1,p.keyID⟩
    return ⟨src,p,size.1,header,0,false,0,none⟩

section
variable (c : Primitives) (e : SealReader)
def SealReader.sealNext (plain : Bytes) : SealReader :=
  {e with pending := e.pending ++ sealSegment c e.params e.index plain, index := e.index + 1}

def SealReader.fill : SealReader × Option Report :=
  match ChunkedStream.readFull e.segSize e.src with
  | (plain,none,src) => (if plain = [] then {e with src := src} else {e with src := src}.sealNext c plain,none)
  | (plain,some .unexpectedEOF,src) =>
    (if plain = [] then {e with src := src, srcDone := true} else {e with src := src, srcDone := true}.sealNext c plain,none)
  | (_,some .eof,src) => ({e with src := src, srcDone := true},none)
  | (_,some .fault,src) => ({e with src := src},some .source)

/- The loop of Read. A fill that leaves nothing pending has ended the source, so the next turn reports the end. -/
def SealReader.settle : SealReader × Option Report :=
  if e.pending ≠ [] then (e,none)
  else match e.err with
    | some report => (e,some report)
    | none =>
      if e.srcDone then (e,some .eof)
      else match e.fill c with
        | (e',some report) => ({e' with err := some report},some report)
        | (e',none) => if e'.pending ≠ [] then (e',none) else (e',some .eof)

end

def SealReader.read (c : Primitives) (n : Nat) (e : SealReader) : Bytes × Option Report × SealReader :=
  match e.settle c with
  | (e',some report) => ([],some report,e')
  | (e',none) =>
    (e'.pending.take n,none,{e' with pending := e'.pending.drop n, written := e'.written + (e'.pending.take n).length})

section
variable {size src}
theorem segmentsEmpty : (plainSegments size).drain [] = .ok [] := by
  have zero : ¬ size.1 ≤ 0 := Nat.not_le_of_lt size.2.1
  exact drainEnd (by simp [plainSegments,readFull,zero])

theorem segmentsFull (fits : size.1 ≤ src.length) {rest} (tail : (plainSegments size).drain (src.drop size.1) = .ok rest) :
    (plainSegments size).drain src = .ok (src.take size.1::rest) := by
  have step : (plainSegments size).next src = .ok (some (src.take size.1,src.drop size.1)) := by
    simp [plainSegments,readFull,fits]
  rw [drainStep step,tail]
  rfl

theorem segmentsShort (lacking : src.length < size.1) (some' : src ≠ []) : (plainSegments size).drain src = .ok [src] := by
  have step : (plainSegments size).next src = .ok (some (src,[])) := by
    simp only [plainSegments]
    rw [readFullShort lacking some']
  rw [drainStep step,segmentsEmpty]
  rfl

theorem segmentsExist (size : SegmentSize) (src : Bytes) : ∃ segments, (plainSegments size).drain src = .ok segments := by
  induction h : src.length using Nat.strongRecOn generalizing src with
  | _ n ih =>
    rcases Nat.lt_or_ge src.length size.1 with lacking | fits
    · by_cases none' : src = []
      · exact ⟨[],none' ▸ segmentsEmpty⟩
      · exact ⟨[src],segmentsShort lacking none'⟩
    · have positive := size.2.1
      obtain ⟨rest,tail⟩ := ih (src.drop size.1).length (by rw [length_drop]; omega) (src.drop size.1) rfl
      exact ⟨_,segmentsFull fits tail⟩

end

section
variable {c p size payload}
def framesFrom (c : Primitives) (p : SealParams) (index : Nat) (segments : List Bytes) : Bytes :=
  (segments.mapIdx fun i => sealSegment c p (i + index)).flatten

theorem framesCons (index : Nat) (segment : Bytes) (rest : List Bytes) :
    framesFrom c p index (segment::rest) = sealSegment c p index segment ++ framesFrom c p (index + 1) rest := by
  unfold framesFrom
  rw [mapIdx_cons,flatten_cons,Nat.zero_add]
  simp only [Nat.add_assoc,Nat.add_comm 1]

structure Sealing (c : Primitives) (p : SealParams) (size : SegmentSize) (payload : Bytes) (total : Nat) (e : SealReader) (left : Bytes) :
    Prop where
  params : e.params = p
  segSize : e.segSize = size.1
  clean : e.err = none
  ending : e.src.ending = .eof
  source : payload = e.src.seen ++ e.src.left
  ended : e.srcDone = true → e.src.left = []
  written : e.written + left.length = total
  left : ∃ segments, (plainSegments size).drain e.src.left = .ok segments ∧ left = e.pending ++ framesFrom c p e.index segments

structure SealDone (payload : Bytes) (total : Nat) (e : SealReader) : Prop where
  seen : e.src.seen = payload
  written : e.written = total

theorem frameNotEmpty (c : Primitives) (p : SealParams) (index : Nat) (plain : Bytes) : sealSegment c p index plain ≠ [] := by
  intro empty
  have length := congrArg List.length empty
  simp [sealSegment,frameBytes,segmentIVLength,ivLen] at length

variable {total e left src}

theorem sealNextHolds {plain} (s : Sealing c p size payload total e left) (nothing : e.pending = [])
    (hands : Handed e.src src plain) {rest} (segments : (plainSegments size).drain e.src.left = .ok (plain::rest))
    (tail : (plainSegments size).drain src.left = .ok rest) {done} (ended : done = true → src.left = []) :
    ({e with src := src, srcDone := done}.sealNext c plain).pending ≠ [] ∧
      Sealing c p size payload total ({e with src := src, srcDone := done}.sealNext c plain) left := by
  have whole : left = sealSegment c p e.index plain ++ framesFrom c p (e.index + 1) rest := by
    obtain ⟨all,drained,rfl⟩ := s.left
    cases drained.symm.trans segments
    rw [nothing,nil_append,framesCons]
  refine ⟨?_,s.params,s.segSize,s.clean,hands.ending.trans s.ending,?_,ended,s.written,rest,tail,?_⟩
  · simp only [SealReader.sealNext,nothing,nil_append]
    exact frameNotEmpty _ _ _ _
  · simp only [SealReader.sealNext]
    rw [s.source,hands.left,hands.seen,append_assoc]
  · simp only [SealReader.sealNext,nothing,nil_append,s.params]
    exact whole

theorem fillHolds (s : Sealing c p size payload total e left) (nothing : e.pending = []) :
    (e.fill c).2 = none ∧
      ((e.fill c).1.pending ≠ [] ∧ Sealing c p size payload total (e.fill c).1 left ∨
        (e.fill c).1.pending = [] ∧ left = [] ∧ SealDone payload total (e.fill c).1) := by
  have hands := ChunkedStream.readFullHands e.segSize e.src
  have positive := size.2.1
  rcases Nat.lt_or_ge e.src.left.length e.segSize with lacking | fits
  · obtain ⟨got,after,stop⟩ := ChunkedStream.readFullShort lacking
    rw [s.ending,if_neg (by decide)] at stop
    unfold SealReader.fill
    rcases read : ChunkedStream.readFull e.segSize e.src with ⟨plain,halt,src⟩
    rw [read] at hands got after stop
    simp only at got after stop
    subst got
    by_cases none' : e.src.left = []
    · -- Nothing was left: the end, and no frame.
      rw [if_pos (by rw [none']; rfl)] at stop
      subst stop
      refine ⟨rfl,.inr ⟨nothing,?_,?_,?_⟩⟩
      · obtain ⟨all,drained,rfl⟩ := s.left
        rw [none',segmentsEmpty] at drained
        cases drained
        rw [nothing]
        rfl
      · change src.seen = payload
        rw [hands.seen,s.source]
      · have written := s.written
        obtain ⟨all,drained,rfl⟩ := s.left
        rw [none',segmentsEmpty] at drained
        cases drained
        rw [nothing] at written
        exact written
    · rw [if_neg (by simpa using none')] at stop
      subst stop
      have segments : (plainSegments size).drain e.src.left = .ok [e.src.left] := segmentsShort (s.segSize ▸ lacking) none'
      simp only [none',if_false]
      exact ⟨trivial,.inl (sealNextHolds s nothing hands segments (by rw [after,segmentsEmpty]) fun _ => after)⟩
  · obtain ⟨got,stop,after⟩ := ChunkedStream.readFullOk fits
    unfold SealReader.fill
    rcases read : ChunkedStream.readFull e.segSize e.src with ⟨plain,halt,src⟩
    rw [read] at hands got after stop
    simp only at got after stop
    subst stop
    obtain ⟨rest,tail⟩ := segmentsExist size src.left
    rw [s.segSize] at fits got after
    have some' : plain ≠ [] := by
      intro empty
      have length := congrArg List.length got
      rw [empty,length_take_of_le fits] at length
      exact absurd length.symm (Nat.ne_of_gt positive)
    have segments : (plainSegments size).drain e.src.left = .ok (plain::rest) := by
      rw [got]
      exact segmentsFull fits (after ▸ tail)
    have unended : e.srcDone = true → src.left = [] := by
      intro done
      rw [s.ended done] at fits
      exact absurd fits (Nat.not_le_of_lt positive)
    simp only [some',if_false]
    exact ⟨trivial,.inl (sealNextHolds s nothing hands segments tail unended)⟩

theorem settleHolds (s : Sealing c p size payload total e left) :
    ((e.settle c).2 = none ∧ (e.settle c).1.pending ≠ [] ∧ Sealing c p size payload total (e.settle c).1 left) ∨
      ((e.settle c).2 = some .eof ∧ left = [] ∧ SealDone payload total (e.settle c).1) := by
  unfold SealReader.settle
  by_cases nothing : e.pending = []
  · rw [if_neg (not_not.mpr nothing),s.clean]
    by_cases done : e.srcDone = true
    · -- The source ended with a short segment and its frame is given.
      rw [if_pos done]
      have none' := s.ended done
      have written := s.written
      obtain ⟨all,drained,rfl⟩ := s.left
      rw [none',segmentsEmpty] at drained
      cases drained
      rw [nothing] at written
      refine .inr ⟨rfl,by rw [nothing]; rfl,?_,written⟩
      rw [s.source,none',append_nil]
    · rw [if_neg done]
      obtain ⟨clean,outcome⟩ := fillHolds s nothing
      rcases filled : e.fill c with ⟨e',report⟩
      rw [filled] at clean outcome
      simp only at clean outcome
      subst clean
      rcases outcome with ⟨more,s'⟩ | ⟨empty,ended,finished⟩
      · exact .inl (by simpa [more] using s')
      · exact .inr (by simpa [empty] using ⟨ended,finished⟩)
  · rw [if_pos nothing]
    exact .inl ⟨rfl,nothing,s⟩

theorem sealGives (c : Primitives) (p : SealParams) (size : SegmentSize) (payload : Bytes) (total : Nat) :
    Gives (SealReader.read c) (Sealing c p size payload total) (SealDone payload total) .eof (fun _ left => left.length) := by
  refine bufferedGives (SealReader.settle c) SealReader.pending (fun n e => {e with
    pending := e.pending.drop n, written := e.written + (e.pending.take n).length}) (fun n e => ?_) settleHolds ?_
  · rw [SealReader.read]
    rcases e.settle c with ⟨_,_ | _⟩ <;> rfl
  intro e left n s _
  obtain ⟨segments,drained,whole⟩ := s.left
  refine ⟨_,whole,s.params,s.segSize,s.clean,s.ending,s.source,s.ended,?_,segments,drained,rfl⟩
  have written := s.written
  rw [whole] at written
  simp only [length_append,length_take,length_drop] at written ⊢
  omega

section
variable (ready : newSealReader p src = .ok e) (ending : src.ending = .eof) (fresh : src.seen = [])
include ready ending fresh
theorem sealStarts : ∃ size blob, sealBlob c p src.left = .ok blob ∧ Sealing c p size src.left blob.length e blob := by
  unfold newSealReader at ready
  split at ready
  · cases ready
  next nonce =>
  split at ready
  · cases ready
  next keyed =>
  obtain ⟨size,sized,rest⟩ := bindOk.mp ready
  obtain ⟨header,encoded,last⟩ := bindOk.mp rest
  cases last
  obtain ⟨segments,drained⟩ := segmentsExist size src.left
  refine ⟨size,header ++ (segments.mapIdx (sealSegment c p)).flatten,?_,rfl,rfl,rfl,ending,by rw [fresh]; rfl,nofun,Nat.zero_add _,
    segments,drained,rfl⟩
  simp only [sealBlob,sealParts,if_neg nonce,if_neg keyed,sized,encoded,drained,bind,Except.bind]
  rfl

/-- Drained with any sizes, a sealing reader over any chunking of a payload has given the blob of the payload, read all
of the payload and counted the blob's bytes. -/
theorem sealDrained {sizes report} (drained : (drain (SealReader.read c) sizes e).2.1 = some report) :
    ∃ blob, sealBlob c p src.left = .ok blob ∧ report = .eof ∧ (drain (SealReader.read c) sizes e).1.flatten = blob ∧
      SealDone src.left blob.length (drain (SealReader.read c) sizes e).2.2 := by
  obtain ⟨size,blob,sealed,holds⟩ := sealStarts (c := c) ready ending fresh
  exact ⟨blob,sealed,drainGives (sealGives c p size src.left blob.length) holds drained⟩

end

theorem sealReady {bytes blob} (sealed : sealBlob c p bytes = .ok blob) : ∃ e, newSealReader p src = .ok e := by
  obtain ⟨_,parts,_⟩ := bindOk.mp sealed
  unfold sealParts at parts
  unfold newSealReader
  split at parts
  · cases parts
  next nonce =>
  split at parts
  · cases parts
  next keyed =>
  obtain ⟨size,sized,rest⟩ := bindOk.mp parts
  obtain ⟨header,encoded,_⟩ := bindOk.mp rest
  rw [if_neg nonce,if_neg keyed,sized]
  simp only [bind,Except.bind,encoded]
  exact ⟨_,rfl⟩

theorem sealCalls (ready : newSealReader p src = .ok e) (ending : src.ending = .eof) (fresh : src.seen = [])
    (sizes : Nat → Nat) : ∃ fewest, (drain (SealReader.read c) (calls sizes fewest) e).2.1 = some .eof ∧
      ∀ count, fewest ≤ count → drain (SealReader.read c) (calls sizes count) e = drain (SealReader.read c) (calls sizes fewest) e := by
  obtain ⟨size,blob,_,holds⟩ := sealStarts (c := c) ready ending fresh
  exact drainCalls (sealGives c p size src.left blob.length) holds sizes

end

structure OpenReader where
  src : Source UInt8
  aeads : List AEAD
  pending : Bytes
  headerDone : Bool
  srcDone : Bool
  err : Option Report

def newOpenReader (aeads : List AEAD) (src : Source UInt8) : Except SegError OpenReader :=
  if aeads = [] then .error .noCandidates
  else match aeads.find? fun aead => aead.nonceSize ≠ ivLen with
    | some aead => .error (.nonceSize aead.nonceSize)
    | none => .ok ⟨src,aeads,[],false,false,none⟩

def headerReadErr : Stop → Report
  | .fault => .source
  | _ => .format .truncated

def OpenReader.readHeader (d : OpenReader) : OpenReader × Option Report :=
  match ChunkedStream.readFull fixedHeaderLen d.src with
  | (_,some stop,src) => ({d with src := src},some (headerReadErr stop))
  | (fixed,none,src) =>
    match decodeFixedHeader fixed with
    | .error err => ({d with src := src},some (.format err))
    | .ok (_,_,keyIDLen) =>
      if 0 < keyIDLen then
        match ChunkedStream.readFull keyIDLen src with
        | (_,some stop,src) => ({d with src := src},some (headerReadErr stop))
        | (_,none,src) => ({d with src := src, headerDone := true},none)
      else ({d with src := src, headerDone := true},none)

def OpenReader.readSegment (d : OpenReader) : OpenReader × Option Report :=
  match ChunkedStream.readFull frameHeaderLen d.src with
  | (_,some .eof,src) => ({d with src := src, srcDone := true},none)
  | (_,some .unexpectedEOF,src) => ({d with src := src},some (.format .truncated))
  | (_,some .fault,src) => ({d with src := src},some .source)
  | (head,none,src) =>
    let ctLen := value (head.drop ivLen)
    if maxCiphertextLen < ctLen then ({d with src := src},some (.format (.segmentTooLarge ctLen)))
    else match ChunkedStream.readFull ctLen src with
      | (_,some _,src) => ({d with src := src},some (.format .truncated))
      | (ct,none,src) =>
        match d.aeads.findSome? fun aead => aead.openWith (head.take ivLen) ct with
        | some plain => ({d with src := src, pending := d.pending ++ plain},none)
        | none => ({d with src := src},some (.format .segmentAuth))

def OpenReader.fill (d : OpenReader) : OpenReader × Option Report := if d.headerDone then d.readSegment else d.readHeader

/- The loop of Read. Every turn reads the header or a frame, so the source bounds their number. -/
def OpenReader.settle : (fuel : Nat) → OpenReader → OpenReader × Option Report
  | fuel, d =>
    if d.pending ≠ [] then (d,none)
    else match d.err with
      | some report => (d,some report)
      | none =>
        if d.srcDone then (d,some .eof)
        else match fuel with
          | 0 => (d,none)
          | fuel+1 =>
            match d.fill with
            | (d',some report) => ({d' with err := some report},some report)
            | (d',none) => d'.settle fuel

def OpenReader.read (n : Nat) (d : OpenReader) : Bytes × Option Report × OpenReader :=
  match d.settle (d.src.left.length + 2) with
  | (d',some report) => ([],some report,d')
  | (d',none) => (d'.pending.take n,none,{d' with pending := d'.pending.drop n})

section
variable {aeads} {d : OpenReader} {left}

variable {n} {s src : Source UInt8} {rest plain}

theorem readFullWhole {part} (whole : readFull n s.left = .ok (part,rest)) :
    ∃ s', ChunkedStream.readFull n s = (part,none,s') ∧ s'.left = rest ∧ s'.ending = s.ending := by
  obtain ⟨length,split⟩ := readFullOk whole
  have fits : n ≤ s.left.length := by
    rw [split,length_append]
    omega
  have hands := ChunkedStream.readFullHands n s
  obtain ⟨got,stop,after⟩ := ChunkedStream.readFullOk fits
  rcases read : ChunkedStream.readFull n s with ⟨part',stop',s'⟩
  rw [read] at hands got stop after
  simp only at got stop after
  subst stop
  rw [split,take_left' length] at got
  rw [split,drop_left' length] at after
  exact ⟨s',by rw [got],after,hands.ending⟩

theorem readFullNothing (ending : s.ending = .eof) (empty : readFull n s.left = .error .eof) :
    ∃ got s', ChunkedStream.readFull n s = (got,some .eof,s') ∧ s'.left = [] := by
  have none' := readFullEof empty
  have lacking : s.left.length < n := by
    rw [none'] at empty ⊢
    simp only [readFull,length_nil] at empty
    split at empty
    · cases empty
    · next more => exact Nat.lt_of_not_le more
  obtain ⟨got,after,stop⟩ := ChunkedStream.readFullShort lacking
  rw [ending,if_neg (by decide),if_pos (by rw [none']; rfl)] at stop
  rcases read : ChunkedStream.readFull n s with ⟨part,stop',s'⟩
  rw [read] at stop after
  simp only at stop after
  subst stop
  exact ⟨part,s',rfl,after⟩

theorem headerReadOk {α : Type} {result : Except Short α} {a : α} (ok : headerRead result = .ok a) : result = .ok a := by
  cases result with
  | ok b => exact congrArg _ (Except.ok.inj ok)
  | error short => cases ok

theorem headerStep (header : readHeader d.src.left = .ok rest) :
    ∃ src, d.readHeader = ({d with src := src, headerDone := true},none) ∧ src.left = rest ∧ src.ending = d.src.ending := by
  obtain ⟨⟨fixed,after⟩,first,more⟩ := bindOk.mp header
  obtain ⟨⟨mode,size,keyIDLen⟩,decoded,more⟩ := bindOk.mp more
  obtain ⟨src,read,left,ending⟩ := readFullWhole (headerReadOk first)
  simp only at more decoded
  split at more
  · next named =>
    obtain ⟨⟨id,rest'⟩,second,last⟩ := bindOk.mp more
    cases last
    obtain ⟨src',read',left',ending'⟩ := readFullWhole (s := src) (left ▸ headerReadOk second)
    refine ⟨src',?_,left',ending'.trans ending⟩
    simp only [OpenReader.readHeader,read,decoded,if_pos named,read']
  · next unnamed =>
    cases more
    refine ⟨src,?_,left,ending⟩
    simp only [OpenReader.readHeader,read,decoded,if_neg unnamed]

theorem segmentStep (frame : readSegment d.aeads d.src.left = .ok (some (plain,rest))) :
    ∃ src, d.readSegment = ({d with src := src, pending := d.pending ++ plain},none) ∧ src.left = rest ∧ src.ending = d.src.ending := by
  unfold readSegment at frame
  split at frame
  · cases frame
  · cases frame
  next head body first =>
  obtain ⟨src,read,left,ending⟩ := readFullWhole first
  simp only at frame
  split at frame
  · cases frame
  next fits =>
  unfold readBody at frame
  split at frame
  · cases frame
  next ct tail second =>
  obtain ⟨src',read',left',ending'⟩ := readFullWhole (s := src) (left ▸ second)
  split at frame
  · next found =>
    cases frame
    refine ⟨src',?_,left',ending'.trans ending⟩
    simp only [OpenReader.readSegment,read,if_neg fits,read',found]
  · cases frame

theorem endStep (ending : d.src.ending = .eof) (finish : readSegment d.aeads d.src.left = .ok none) :
    ∃ src, d.readSegment = ({d with src := src, srcDone := true},none) ∧ d.src.left = [] ∧ src.left = [] ∧ src.ending = .eof := by
  have first := endsAt finish
  obtain ⟨got,src,read,left⟩ := readFullNothing ending first
  have hands := ChunkedStream.readFullHands frameHeaderLen d.src
  rw [read] at hands
  exact ⟨src,by simp only [OpenReader.readSegment,read],readFullEof first,left,hands.ending.trans ending⟩

structure Opening (aeads : List AEAD) (d : OpenReader) (left : Bytes) : Prop where
  candidates : d.aeads = aeads
  clean : d.err = none
  ending : d.src.ending = .eof
  ended : d.srcDone = true → d.headerDone = true ∧ d.src.left = []
  fresh : d.headerDone = false → d.pending = []
  left : ∃ rest segments, (if d.headerDone then .ok d.src.left else readHeader d.src.left) = .ok rest ∧
    (openReader aeads).drain rest = .ok segments ∧ left = d.pending ++ segments.flatten

def OpenReader.turns (d : OpenReader) : Nat := d.src.left.length + if d.headerDone then 0 else 1

theorem readHeaderRest {src : Bytes} (header : readHeader src = .ok rest) : rest.length ≤ src.length := by
  obtain ⟨⟨fixed,after⟩,first,more⟩ := bindOk.mp header
  obtain ⟨⟨mode,size,keyIDLen⟩,_,more⟩ := bindOk.mp more
  have split := (readFullOk (headerReadOk first)).2
  simp only at more
  split at more
  · obtain ⟨⟨id,rest'⟩,second,last⟩ := bindOk.mp more
    cases last
    have split' := (readFullOk (headerReadOk second)).2
    change rest'.length ≤ src.length
    rw [split,split',length_append,length_append]
    omega
  · cases more
    rw [split,length_append]
    omega

section
variable (o : Opening aeads d left) (open' : d.srcDone = false)
include o open'

theorem openHeader (fresh : d.headerDone = false) :
    d.fill.2 = none ∧ Opening aeads d.fill.1 left ∧ d.fill.1.turns < d.turns := by
  obtain ⟨rest,segments,header,drained,whole⟩ := o.left
  rw [fresh] at header
  obtain ⟨src,step,left',ending⟩ := headerStep header
  simp only [OpenReader.fill,fresh,Bool.false_eq_true,if_false,step]
  refine ⟨trivial,⟨o.candidates,o.clean,ending.trans o.ending,?_,?_,rest,segments,?_,drained,whole⟩,?_⟩
  · intro done
    rw [open'] at done
    cases done
  · intro fresh
    cases fresh
  · simp only [if_true,left']
  · have shorter := readHeaderRest header
    simp only [OpenReader.turns,left',fresh,if_true,Bool.false_eq_true,if_false]
    omega

theorem openSegment (nothing : d.pending = []) (parsed : d.headerDone = true) {plain rest}
    (next : readSegment d.aeads d.src.left = .ok (some (plain,rest))) :
    d.fill.2 = none ∧ Opening aeads d.fill.1 left ∧ d.fill.1.turns < d.turns := by
  obtain ⟨_,segments,header,drained,whole⟩ := o.left
  rw [parsed] at header
  cases header
  obtain ⟨src,step,left',ending⟩ := segmentStep next
  have shorter := readSegmentShorter next
  rw [o.candidates] at next
  rw [drainStep (r := openReader aeads) next] at drained
  cases tail : (openReader aeads).drain rest with
  | error err =>
    rw [tail] at drained
    cases drained
  | ok more =>
    rw [tail] at drained
    cases drained
    simp only [OpenReader.fill,parsed,if_true,step]
    refine ⟨trivial,⟨o.candidates,o.clean,ending.trans o.ending,?_,?_,rest,more,?_,tail,?_⟩,?_⟩
    · intro done
      rw [open'] at done
      cases done
    · intro fresh
      cases fresh
    · simp only [if_true,left']
    · rw [whole,nothing,flatten_cons]
      rfl
    · simp only [OpenReader.turns,left',parsed,if_true]
      omega

theorem openFill (nothing : d.pending = []) :
    d.fill.2 = none ∧ Opening aeads d.fill.1 left ∧ (d.fill.1.srcDone = true ∨ d.fill.1.turns < d.turns) := by
  cases parsed : d.headerDone with
  | false => exact (openHeader o open' parsed).imp_right (.imp_right .inr)
  | true =>
    obtain ⟨_,segments,header,drained,whole⟩ := o.left
    rw [parsed] at header
    cases header
    cases next : readSegment d.aeads d.src.left with
    | error err =>
      rw [o.candidates] at next
      rw [drainError (r := openReader aeads) next] at drained
      cases drained
    | ok found =>
      cases found with
      | none =>
        obtain ⟨src,step,none',left',ending⟩ := endStep o.ending next
        simp only [OpenReader.fill,parsed,if_true,step]
        refine ⟨trivial,⟨o.candidates,o.clean,ending,fun _ => ⟨rfl,left'⟩,?_,[],segments,?_,?_,whole⟩,.inl trivial⟩
        · intro fresh
          cases fresh
        · simp only [if_true,left']
        · rwa [none'] at drained
      | some pair => exact (openSegment o open' nothing parsed next).imp_right (.imp_right .inr)

end

theorem openEnded {aeads} (o : Opening aeads d left) (nothing : d.pending = []) (done : d.srcDone = true) : left = [] := by
  obtain ⟨parsed,none'⟩ := o.ended done
  obtain ⟨rest,segments,header,drained,whole⟩ := o.left
  rw [parsed,if_pos rfl,none'] at header
  cases header
  rw [drainEnd (readEnd aeads)] at drained
  cases drained
  rw [whole,nothing]
  rfl

theorem openSettle {aeads fuel} (o : Opening aeads d left) (enough : d.turns < fuel ∨ d.srcDone = true) :
    ((d.settle fuel).2 = none ∧ (d.settle fuel).1.pending ≠ [] ∧ Opening aeads (d.settle fuel).1 left) ∨
      ((d.settle fuel).2 = some .eof ∧ left = []) := by
  induction fuel generalizing d with
  | zero =>
    unfold OpenReader.settle
    by_cases nothing : d.pending = []
    · have done := enough.resolve_left (Nat.not_lt_zero _)
      rw [if_neg (not_not.mpr nothing),o.clean]
      simp only [done,if_true]
      exact .inr ⟨trivial,openEnded o nothing done⟩
    · rw [if_pos nothing]
      exact .inl ⟨rfl,nothing,o⟩
  | succ fuel ih =>
    unfold OpenReader.settle
    by_cases nothing : d.pending = []
    · rw [if_neg (not_not.mpr nothing),o.clean]
      simp only
      cases done : d.srcDone with
      | true =>
        rw [if_pos rfl]
        exact .inr ⟨rfl,openEnded o nothing done⟩
      | false =>
        rw [if_neg Bool.false_ne_true]
        obtain ⟨clean,holds,nearer⟩ := openFill o done nothing
        rcases filled : d.fill with ⟨d',report⟩
        rw [filled] at clean holds nearer
        simp only at clean
        subst clean
        refine ih holds (nearer.symm.imp_left fun less => ?_)
        rw [done] at enough
        have bound := enough.resolve_right Bool.false_ne_true
        exact Nat.lt_of_lt_of_le less (Nat.le_of_lt_succ bound)
    · rw [if_pos nothing]
      exact .inl ⟨rfl,nothing,o⟩

theorem openGives (aeads : List AEAD) :
    Gives OpenReader.read (Opening aeads) (fun _ => True) .eof (fun _ left => left.length) := by
  refine bufferedGives (fun d => d.settle (d.src.left.length + 2)) OpenReader.pending
    (fun n d => {d with pending := d.pending.drop n}) (fun n d => ?_) ?_ ?_
  · rw [OpenReader.read]
    rcases d.settle (d.src.left.length + 2) with ⟨_,_ | _⟩ <;> rfl
  · intro d left o
    have enough : d.turns < d.src.left.length + 2 := by
      unfold OpenReader.turns
      split <;> omega
    exact (openSettle o (.inl enough)).imp_right fun ended => ⟨ended.1,ended.2,trivial⟩
  · intro d left n o more
    obtain ⟨rest,segments,header,drained,whole⟩ := o.left
    exact ⟨_,whole,o.candidates,o.clean,o.ending,o.ended,fun unparsed => absurd (o.fresh unparsed) more,rest,segments,header,
      drained,rfl⟩

variable {aeads : List AEAD} (opened : openBlob aeads src.left = .ok plain) (ending : src.ending = .eof)
include opened ending

theorem openStarts : ∃ d, newOpenReader aeads src = .ok d ∧ Opening aeads d plain := by
  unfold openBlob at opened
  split at opened
  · cases opened
  next candidates =>
  split at opened
  · cases opened
  next sized =>
  obtain ⟨rest,header,more⟩ := bindOk.mp opened
  obtain ⟨segments,drained,last⟩ := bindOk.mp more
  cases last
  refine ⟨⟨src,aeads,[],false,false,none⟩,by simp only [newOpenReader,if_neg candidates,sized],?_⟩
  exact ⟨rfl,rfl,ending,nofun,fun _ => rfl,rest,segments,header,drained,rfl⟩

/-- Drained with any sizes, an opening reader over any chunking of a blob that opens has given its plaintext. -/
theorem openDrained {d} (ready : newOpenReader aeads src = .ok d) {sizes report}
    (drained : (drain OpenReader.read sizes d).2.1 = some report) :
    report = .eof ∧ (drain OpenReader.read sizes d).1.flatten = plain := by
  obtain ⟨d',ready',holds⟩ := openStarts opened ending
  cases ready.symm.trans ready'
  obtain ⟨same,gave,_⟩ := drainGives (openGives aeads) holds drained
  exact ⟨same,gave⟩

theorem openCalls {d} (ready : newOpenReader aeads src = .ok d) (sizes : Nat → Nat) :
    ∃ fewest, (drain OpenReader.read (calls sizes fewest) d).2.1 = some .eof ∧
      ∀ count, fewest ≤ count → drain OpenReader.read (calls sizes count) d = drain OpenReader.read (calls sizes fewest) d := by
  obtain ⟨d',ready',holds⟩ := openStarts opened ending
  cases ready.symm.trans ready'
  exact drainCalls (openGives aeads) holds sizes

end

end Scrinium.SegAead
