import Scrinium.Pipeline
import Scrinium.SealStream

/-! The pipeline as it runs (runner.go): every stage reads the one before it in pieces of its own choosing, and a tee
between two stages hashes what passes. -/
namespace Scrinium.PipelineStream
open List hiding after
open Domain SegAead Trace
open Pipeline (Hasher)
open ChunkedStream (Source Ending drain calls drainGives drainCalls)

inductive Fault where
  | unsupportedAlgorithm
  | keys (err : Error)
  | noKeys
  | badKey
  | format (err : SegError)
  | codec (err : Error)
  | stream
  | undrained
  deriving DecidableEq

inductive KeySource where
  | pinned (key : Bytes)
  | resolving (getKeys : String → Except Error (List Bytes))

inductive Factory where
  | compressor (encode : Bytes → Bytes) (decode : Bytes → Except Error Bytes)
  | aesgcm (keys : KeySource)

structure Plugins where
  registry : String → Option Factory
  crypto : Primitives
  newGCM : Bytes → Option AEAD

structure EncodeContext where
  keyID : String
  mode : IVMode
  segmentSize : Int

/- How a stage reads and is read: the sizes asked for call by call, each less one, and the pieces in which a compressor
lets its output go. -/
structure Flow where
  takes : Nat → Nat
  gives : Nat → Nat
  cut : Bytes → List Bytes
  whole : ∀ bytes, (cut bytes).flatten = bytes
  eager : Bool

def Flow.serve (flow : Flow) (bytes : Bytes) : Source UInt8 := ⟨flow.cut bytes,.eof,flow.eager,[]⟩

section
variable (x : Plugins)
def resolveKeys (getKeys : String → Except Error (List Bytes)) (keyID : String) : Except Fault (List Bytes) :=
  match getKeys keyID with
  | .error err => .error (.keys err)
  | .ok [] => .error .noKeys
  | .ok keys => .ok keys

def buildAEAD (key : Bytes) : Except Fault AEAD :=
  match x.newGCM key with
  | some aead => .ok aead
  | none => .error .badKey

def writeKey (ec : EncodeContext) : KeySource → Except Fault (Bytes × String)
  | .resolving getKeys => do
    let keys ← resolveKeys getKeys ec.keyID
    return (keys.headD [],ec.keyID)
  | .pinned key => return (key,"")

def sealParams (ec : EncodeContext) (keys : KeySource) : Except Fault (SealParams × String) := do
  let (dek,keyID) ← writeKey ec keys
  let aead ← buildAEAD x dek
  return (⟨aead,ec.mode,dek,keyID.toUTF8.toList,ec.segmentSize⟩,keyID)

def resolveAEADs (keyID : String) : KeySource → Except Fault (List AEAD)
  | .resolving getKeys => do (← resolveKeys getKeys keyID).mapM (buildAEAD x)
  | .pinned key => do return [← buildAEAD x key]

end

def lift {α : Type} : Except SegError α → Except Fault α
  | .ok a => .ok a
  | .error err => .error (.format err)

def drainSource (sizes : List Nat) (src : Source UInt8) : Except Fault (Bytes × Source UInt8) :=
  match drain Source.read sizes src with
  | (outs,some .eof,src') => .ok (outs.flatten,src')
  | (_,some .fault,_) => .error .stream
  | (_,none,_) => .error .undrained

def collect {σ : Type} (eager : Bool) : List Bytes × Option Report × σ → Except Fault (Source UInt8 × σ)
  | (outs,some .eof,s) => .ok (⟨outs,.eof,eager,[]⟩,s)
  | (_,some .source,_) => .error .stream
  | (_,some (.format err),_) => .error (.format err)
  | (_,none,_) => .error .undrained

section
variable (x : Plugins) (h : Hasher) (ec : EncodeContext)
def putStage (count : Nat) (factory : Factory) (flow : Flow) (src : Source UInt8) :
    Except Fault (Source UInt8 × Source UInt8 × String) :=
  match factory with
  | .compressor encode _ => do
    let (input,after) ← drainSource (calls flow.takes count) src
    return (flow.serve (encode input),after,"")
  | .aesgcm keys => do
    let (p,keyID) ← sealParams x ec keys
    let e ← lift (newSealReader p src)
    let (out,e') ← collect flow.eager (drain (SealReader.read x.crypto) (calls flow.gives count) e)
    return (out,e'.src,keyID)

structure PutPipeline where
  output : Bytes
  content : Bytes
  blob : Bytes
  stages : List PipelineStage

/- BuildPut, drained. The hasher of a stage sees what the next reader took of its output; that of the last stage is the
one for the blob ref. -/
def runPut (count : Nat) (last : Nat → Nat) : List (String × Flow) → Source UInt8 → Except Fault PutPipeline
  | [], src => do
    let (output,src') ← drainSource (calls last count) src
    return ⟨output,src'.seen,src'.seen,[]⟩
  | (algo,flow)::rest, src =>
    match x.registry algo with
    | none => .error .unsupportedAlgorithm
    | some factory => do
      let (out,src',keyID) ← putStage x ec count factory flow src
      let pp ← runPut count last rest out
      return ⟨pp.output,src'.seen,pp.blob,⟨algo,h.format pp.content,[],keyID⟩::pp.stages⟩

def PutPipeline.contentHash (pp : PutPipeline) : String := h.hex pp.content
def PutPipeline.blobRef (pp : PutPipeline) : String := h.hex pp.blob
def PutPipeline.contentBytesRead (pp : PutPipeline) : Nat := pp.content.length

end

section
variable (x : Plugins)
def getStage (count : Nat) (stage : PipelineStage) (flow : Flow) (src : Source UInt8) : Except Fault (Source UInt8) :=
  match x.registry stage.algorithm with
  | none => .error .unsupportedAlgorithm
  | some (.compressor _ decode) => do
    let (input,_) ← drainSource (calls flow.takes count) src
    match decode input with
    | .ok bytes => return flow.serve bytes
    | .error err => throw (.codec err)
  | some (.aesgcm keys) => do
    let aeads ← resolveAEADs x stage.keyID keys
    let d ← lift (newOpenReader aeads src)
    let (out,_) ← collect flow.eager (drain OpenReader.read (calls flow.gives count) d)
    return out

def runGet (count : Nat) (last : Nat → Nat) : List (PipelineStage × Flow) → Source UInt8 → Except Fault Bytes
  | [], src => do
    let (output,_) ← drainSource (calls last count) src
    return output
  | (stage,flow)::rest, src => do runGet count last rest (← getStage x count stage flow src)

end

section
variable (x : Plugins) (ec : EncodeContext)
def encodeWhole (factory : Factory) (bytes : Bytes) : Except Fault (Bytes × String) :=
  match factory with
  | .compressor encode _ => .ok (encode bytes,"")
  | .aesgcm keys => do
    let (p,keyID) ← sealParams x ec keys
    let blob ← lift (sealBlob x.crypto p bytes)
    return (blob,keyID)

def encodeAll : List String → Bytes → Except Fault (List (Bytes × String))
  | [], _ => .ok []
  | algo::rest, bytes =>
    match x.registry algo with
    | none => .error .unsupportedAlgorithm
    | some factory => do
      let (out,keyID) ← encodeWhole x ec factory bytes
      return (out,keyID)::(← encodeAll rest out)

def decodeWhole (stage : PipelineStage) (bytes : Bytes) : Except Fault Bytes :=
  match x.registry stage.algorithm with
  | none => .error .unsupportedAlgorithm
  | some (.compressor _ decode) =>
    match decode bytes with
    | .ok plain => .ok plain
    | .error err => .error (.codec err)
  | some (.aesgcm keys) => do
    let aeads ← resolveAEADs x stage.keyID keys
    lift (openBlob aeads bytes)

end

structure Fresh (src : Source UInt8) : Prop where
  ending : src.ending = .eof
  seen : src.seen = []

variable {src factory keyID bytes plain count}

section
variable {x ec src' out flow}
theorem liftOk {α : Type} {result : Except SegError α} {a : α} (ok : lift result = .ok a) : result = .ok a := by
  cases result with
  | ok b => exact congrArg _ (Except.ok.inj ok)
  | error err => cases ok

theorem serveFresh (flow : Flow) (bytes : Bytes) : Fresh (flow.serve bytes) := ⟨rfl,rfl⟩

theorem serveLeft (flow : Flow) (bytes : Bytes) : (flow.serve bytes).left = bytes := flow.whole bytes

theorem drainSourceOk {sizes} (fresh : Fresh src) (ok : drainSource sizes src = .ok (bytes,src')) :
    bytes = src.left ∧ src'.seen = src.left := by
  unfold drainSource at ok
  have gives := ChunkedStream.sourceGives (α := UInt8) .eof src.left
  rcases answer : drain Source.read sizes src with ⟨outs,report,s⟩
  rw [answer] at ok
  cases report with
  | none => cases ok
  | some ending =>
    have done := drainGives gives ⟨rfl,fresh.ending,by rw [fresh.seen]; rfl⟩ (by rw [answer])
    rw [answer] at done
    cases ending with
    | fault => cases ok
    | eof =>
      cases ok
      exact ⟨done.2.1,done.2.2.2⟩

theorem drainSourceCalls (fresh : Fresh src) (sizes : Nat → Nat) :
    ∃ fewest src', ∀ count, fewest ≤ count → drainSource (calls sizes count) src = .ok (src.left,src') := by
  have gives := ChunkedStream.sourceGives (α := UInt8) .eof src.left
  have holds : src.left = src.left ∧ src.ending = .eof ∧ src.left = src.seen ++ src.left := ⟨rfl,fresh.ending,by rw [fresh.seen]; rfl⟩
  obtain ⟨fewest,ended,same⟩ := drainCalls gives holds sizes
  have gave := (drainGives gives holds ended).2.1
  refine ⟨fewest,(drain Source.read (calls sizes fewest) src).2.2,fun count enough => ?_⟩
  unfold drainSource
  rw [same count enough]
  rcases answer : drain Source.read (calls sizes fewest) src with ⟨outs,report,s⟩
  rw [answer] at ended gave
  simp only at ended gave
  subst ended
  rw [← gave]

theorem collectOk {σ : Type} {eager : Bool} {outs : List Bytes} {report : Option Report} {s s' : σ}
    (ok : collect eager (outs,report,s) = .ok (out,s')) : report = some .eof ∧ out = ⟨outs,.eof,eager,[]⟩ ∧ s' = s := by
  unfold collect at ok
  split at ok
  · next pair =>
    cases pair
    cases ok
    exact ⟨rfl,rfl,rfl⟩
  · cases ok
  · cases ok
  · cases ok

theorem collectEnded {σ : Type} {answer : List Bytes × Option Report × σ} (eager : Bool) (ended : answer.2.1 = some .eof) :
    collect eager answer = .ok (⟨answer.1,.eof,eager,[]⟩,answer.2.2) := by
  obtain ⟨outs,report,s⟩ := answer
  cases ended
  rfl

variable (fresh : Fresh src)
include fresh

theorem putStageOk (ok : putStage x ec count factory flow src = .ok (out,src',keyID)) :
    encodeWhole x ec factory src.left = .ok (out.left,keyID) ∧ src'.seen = src.left ∧ Fresh out := by
  cases factory with
  | compressor encode decode =>
    obtain ⟨⟨input,src''⟩,drained,last⟩ := bindOk.mp ok
    cases last
    obtain ⟨rfl,seen⟩ := drainSourceOk fresh drained
    exact ⟨by rw [serveLeft]; rfl,seen,serveFresh ..⟩
  | aesgcm keys =>
    obtain ⟨⟨p,keyID'⟩,params,rest⟩ := bindOk.mp ok
    obtain ⟨e,ready,rest⟩ := bindOk.mp rest
    obtain ⟨⟨out',e'⟩,collected,last⟩ := bindOk.mp rest
    cases last
    obtain ⟨ended,rfl,rfl⟩ := collectOk collected
    obtain ⟨blob,sealed,_,gave,done⟩ := sealDrained (c := x.crypto) (liftOk ready) fresh.ending fresh.seen ended
    refine ⟨?_,done.seen,rfl,rfl⟩
    simp only [encodeWhole,params,bind,Except.bind,sealed]
    rw [← gave]
    rfl

theorem putStageCalls (flow : Flow) (encoded : encodeWhole x ec factory src.left = .ok (bytes,keyID)) :
    ∃ fewest out src', ∀ count, fewest ≤ count → putStage x ec count factory flow src = .ok (out,src',keyID) := by
  cases factory with
  | compressor encode decode =>
    cases encoded
    obtain ⟨fewest,src',drained⟩ := drainSourceCalls fresh flow.takes
    refine ⟨fewest,flow.serve (encode src.left),src',fun count enough => ?_⟩
    simp only [putStage,drained count enough,bind,Except.bind]
    rfl
  | aesgcm keys =>
    obtain ⟨⟨p,keyID'⟩,params,rest⟩ := bindOk.mp encoded
    obtain ⟨blob,sealed,last⟩ := bindOk.mp rest
    cases last
    obtain ⟨e,ready⟩ : ∃ e, newSealReader p src = .ok e := sealReady (liftOk sealed)
    obtain ⟨fewest,ended,same⟩ := sealCalls (c := x.crypto) ready fresh.ending fresh.seen flow.gives
    refine ⟨fewest,⟨(drain (SealReader.read x.crypto) (calls flow.gives fewest) e).1,.eof,flow.eager,[]⟩,
      (drain (SealReader.read x.crypto) (calls flow.gives fewest) e).2.2.src,fun count enough => ?_⟩
    simp only [putStage,params,ready,lift,same count enough,collectEnded flow.eager ended,bind,Except.bind]
    rfl

variable {stage}

theorem getStageOk (ok : getStage x count stage flow src = .ok out)
    (decoded : decodeWhole x stage src.left = .ok plain) : out.left = plain ∧ Fresh out := by
  unfold getStage at ok
  unfold decodeWhole at decoded
  cases registered : x.registry stage.algorithm with
  | none => simp [registered] at ok
  | some factory =>
    rw [registered] at ok decoded
    cases factory with
    | compressor encode decode =>
      obtain ⟨⟨input,src''⟩,drained,rest⟩ := bindOk.mp ok
      obtain ⟨rfl,_⟩ := drainSourceOk fresh drained
      simp only at rest decoded
      cases back : decode src.left with
      | error err =>
        rw [back] at rest
        cases rest
      | ok bytes =>
        rw [back] at rest decoded
        cases rest
        cases decoded
        exact ⟨serveLeft ..,serveFresh ..⟩
    | aesgcm keys =>
      obtain ⟨aeads,candidates,rest⟩ := bindOk.mp ok
      obtain ⟨d,ready,rest⟩ := bindOk.mp rest
      obtain ⟨⟨out',d'⟩,collected,last⟩ := bindOk.mp rest
      cases last
      obtain ⟨ended,rfl,rfl⟩ := collectOk collected
      obtain ⟨aeads',candidates',opened⟩ := bindOk.mp decoded
      cases candidates.symm.trans candidates'
      exact ⟨(openDrained (liftOk opened) fresh.ending (liftOk ready) ended).2,rfl,rfl⟩

theorem getStageCalls (flow : Flow) (decoded : decodeWhole x stage src.left = .ok plain) :
    ∃ fewest out, ∀ count, fewest ≤ count → getStage x count stage flow src = .ok out := by
  unfold decodeWhole at decoded
  unfold getStage
  cases registered : x.registry stage.algorithm with
  | none => simp [registered] at decoded
  | some factory =>
    rw [registered] at decoded
    cases factory with
    | compressor encode decode =>
      obtain ⟨fewest,src',drained⟩ := drainSourceCalls fresh flow.takes
      simp only at decoded ⊢
      cases back : decode src.left with
      | error err =>
        rw [back] at decoded
        cases decoded
      | ok bytes =>
        refine ⟨fewest,flow.serve bytes,fun count enough => ?_⟩
        simp only [drained count enough,bind,Except.bind,back]
        rfl
    | aesgcm keys =>
      obtain ⟨aeads,candidates,opened⟩ := bindOk.mp decoded
      obtain ⟨d,ready,_⟩ := openStarts (liftOk opened) fresh.ending
      obtain ⟨fewest,ended,same⟩ := openCalls (liftOk opened) fresh.ending ready flow.gives
      refine ⟨fewest,⟨(drain OpenReader.read (calls flow.gives fewest) d).1,.eof,flow.eager,[]⟩,fun count enough => ?_⟩
      simp only [candidates,ready,lift,same count enough,collectEnded flow.eager ended,bind,Except.bind]
      rfl

end

/- What is asked of the plugins: compressors invert, AES-GCM opens what it seals and has the standard nonce, and a resolver
hands out no key of a wrong length. -/
structure Sound (x : Plugins) (algos : List String) : Prop where
  inverts : ∀ algo ∈ algos, ∀ encode decode, x.registry algo = some (.compressor encode decode) → ∀ bytes, decode (encode bytes) = .ok bytes
  ideal : ∀ key aead, x.newGCM key = some aead → Ideal aead ∧ aead.nonceSize = ivLen
  usable : ∀ algo ∈ algos, ∀ getKeys, x.registry algo = some (.aesgcm (.resolving getKeys)) → ∀ keyID keys, getKeys keyID = .ok keys →
    ∀ key ∈ keys, x.newGCM key ≠ none

section
variable {x : Plugins} {h ec algo algos out payload outs}
def finalOf (payload : Bytes) (outs : List (Bytes × String)) : Bytes := (outs.getLast?.map Prod.fst).getD payload

theorem finalCons {bytes} (out : Bytes × String) (outs : List (Bytes × String)) : finalOf bytes (out::outs) = finalOf out.1 outs := by
  cases outs with
  | nil => rfl
  | cons next tail => simp [finalOf,List.getLast?_cons]

def records (h : Hasher) (algos : List String) (outs : List (Bytes × String)) : List PipelineStage :=
  List.zipWith (fun algo out => ⟨algo,h.format out.1,[],out.2⟩) algos outs

def decodeChain (x : Plugins) : List PipelineStage → Bytes → Except Fault Bytes
  | [], bytes => .ok bytes
  | stage::rest, bytes => do decodeChain x rest (← decodeWhole x stage bytes)

theorem decodeChainAppend {first second plain} (one : decodeChain x first bytes = .ok out)
    (two : decodeChain x second out = .ok plain) : decodeChain x (first ++ second) bytes = .ok plain := by
  induction first generalizing bytes with
  | nil =>
    cases one
    exact two
  | cons stage rest ih =>
    obtain ⟨next,decoded,more⟩ := bindOk.mp one
    exact bindOk.mpr ⟨next,decoded,ih more⟩

variable {p : SealParams}

theorem sealedBack {blob} (ideal : Ideal p.aead) {others}
    (sized : ∀ b ∈ others, b.nonceSize = ivLen) (sealed : sealBlob x.crypto p bytes = .ok blob) :
    openBlob (p.aead::others) blob = .ok bytes := by
  obtain ⟨⟨header,frames⟩,parts,last⟩ := bindOk.mp sealed
  cases last
  exact firstOpens sized (sealedOpens (sealedParts ideal parts))

theorem writerFirst (sound : Sound x algos) (mem : algo ∈ algos) {keys}
    (registered : x.registry algo = some (.aesgcm keys)) (params : sealParams x ec keys = .ok (p,keyID)) :
    Ideal p.aead ∧ ∃ others, resolveAEADs x keyID keys = .ok (p.aead::others) ∧ ∀ b ∈ others, b.nonceSize = ivLen := by
  obtain ⟨⟨dek,keyID'⟩,chosen,rest⟩ := bindOk.mp params
  obtain ⟨aead,built,last⟩ := bindOk.mp rest
  cases last
  have made : x.newGCM dek = some aead := by
    unfold buildAEAD at built
    split at built
    · next found => rw [found,Except.ok.inj built]
    · cases built
  refine ⟨(sound.ideal dek aead made).1,?_⟩
  cases keys with
  | pinned key =>
    cases chosen
    refine ⟨[],?_,nofun⟩
    simp only [resolveAEADs,built,bind,Except.bind]
    rfl
  | resolving getKeys =>
    obtain ⟨candidates,resolved,last⟩ := bindOk.mp chosen
    cases last
    have got : getKeys ec.keyID = .ok candidates ∧ candidates ≠ [] := by
      unfold resolveKeys at resolved
      split at resolved
      · cases resolved
      · cases resolved
      · next keys some' got =>
        cases resolved
        exact ⟨got,some'⟩
    obtain ⟨first,more,rfl⟩ := exists_cons_of_ne_nil got.2
    have each : ∀ ks : List Bytes, (∀ k ∈ ks, x.newGCM k ≠ none) → ∃ as, ks.mapM (buildAEAD x) = .ok as ∧ ∀ a ∈ as, a.nonceSize = ivLen := by
      intro ks usable
      induction ks with
      | nil => exact ⟨[],rfl,nofun⟩
      | cons k rest ih =>
        obtain ⟨as,mapped,sized⟩ := ih fun k' mem => usable k' (mem_cons_of_mem k mem)
        obtain ⟨a,good⟩ := Option.ne_none_iff_exists'.mp (usable k mem_cons_self)
        have own : buildAEAD x k = .ok a := by rw [buildAEAD,good]
        refine ⟨a::as,by rw [mapM_cons,own,mapped]; rfl,fun b mem => ?_⟩
        rcases mem_cons.mp mem with rfl | mem
        · exact (sound.ideal k b good).2
        · exact sized b mem
    obtain ⟨as,mapped,sized⟩ := each more fun k later =>
      sound.usable algo mem getKeys registered ec.keyID (first::more) got.1 k (mem_cons_of_mem first later)
    refine ⟨as,?_,sized⟩
    simp only [resolveAEADs,resolved,bind,Except.bind,mapM_cons]
    rw [show buildAEAD x first = .ok aead from built,mapped]
    rfl

theorem decodeEncoded (sound : Sound x algos) (mem : algo ∈ algos) (registered : x.registry algo = some factory)
    (encoded : encodeWhole x ec factory bytes = .ok (out,keyID)) (hash : String) :
    decodeWhole x ⟨algo,hash,[],keyID⟩ out = .ok bytes := by
  unfold decodeWhole
  simp only [registered]
  cases factory with
  | compressor encode decode =>
    cases encoded
    simp only [sound.inverts algo mem encode decode registered bytes]
  | aesgcm keys =>
    obtain ⟨⟨p,keyID'⟩,params,rest⟩ := bindOk.mp encoded
    obtain ⟨blob,sealed,last⟩ := bindOk.mp rest
    cases last
    obtain ⟨ideal,others,candidates,sized⟩ := writerFirst sound mem registered params
    simp only [candidates,bind,Except.bind,sealedBack ideal sized (liftOk sealed)]
    rfl

theorem decodeAll {all} (sound : Sound x all) (inside : ∀ algo ∈ algos, algo ∈ all)
    (encoded : encodeAll x ec algos payload = .ok outs) :
    decodeChain x (records h algos outs).reverse (finalOf payload outs) = .ok payload := by
  induction algos generalizing payload outs with
  | nil =>
    cases encoded
    rfl
  | cons algo rest ih =>
    unfold encodeAll at encoded
    split at encoded
    · cases encoded
    next factory registered =>
    obtain ⟨⟨out,keyID⟩,first,more⟩ := bindOk.mp encoded
    obtain ⟨tail,later,last⟩ := bindOk.mp more
    cases last
    have back := ih (fun a mem => inside a (mem_cons_of_mem algo mem)) later
    have own : decodeChain x [⟨algo,h.format out,[],keyID⟩] out = .ok payload := by
      simp only [decodeChain,decodeEncoded sound (inside algo mem_cons_self) registered first,bind,Except.bind]
    rw [records,zipWith_cons_cons,reverse_cons,finalCons]
    exact decodeChainAppend back own

end

section
variable {x h ec last}

variable {steps reads}

theorem runPutOk {pp} (fresh : Fresh src) (done : runPut x h ec count last steps src = .ok pp) :
    ∃ outs, encodeAll x ec (steps.map Prod.fst) src.left = .ok outs ∧
      pp.content = src.left ∧ pp.blob = pp.output ∧ pp.output = finalOf src.left outs ∧
      pp.stages = records h (steps.map Prod.fst) outs := by
  induction steps generalizing src pp with
  | nil =>
    obtain ⟨⟨output,src'⟩,drained,finish⟩ := bindOk.mp done
    cases finish
    obtain ⟨rfl,seen⟩ := drainSourceOk fresh drained
    exact ⟨[],rfl,seen,seen,rfl,rfl⟩
  | cons step rest ih =>
    obtain ⟨algo,flow⟩ := step
    unfold runPut at done
    split at done
    · cases done
    next factory registered =>
    obtain ⟨⟨out,src',keyID⟩,staged,more⟩ := bindOk.mp done
    obtain ⟨inner,run,finish⟩ := bindOk.mp more
    cases finish
    obtain ⟨encoded,seen,clean⟩ := putStageOk fresh staged
    obtain ⟨outs,later,content,blob,output,stages⟩ := ih clean run
    refine ⟨(out.left,keyID)::outs,?_,seen,blob,?_,?_⟩
    · simp only [map_cons,encodeAll,registered,encoded,later,bind,Except.bind]
      rfl
    · rw [output,finalCons]
    · rw [records,map_cons,zipWith_cons_cons,stages,content]
      rfl

theorem runPutCalls {outs} (fresh : Fresh src)
    (encoded : encodeAll x ec (steps.map Prod.fst) src.left = .ok outs) :
    ∃ fewest pp, ∀ count, fewest ≤ count → runPut x h ec count last steps src = .ok pp := by
  induction steps generalizing src outs with
  | nil =>
    obtain ⟨fewest,src',drained⟩ := drainSourceCalls fresh last
    exact ⟨fewest,_,fun count enough => bindOk.mpr ⟨_,drained count enough,rfl⟩⟩
  | cons step rest ih =>
    obtain ⟨algo,flow⟩ := step
    rw [map_cons] at encoded
    unfold encodeAll at encoded
    unfold runPut
    split at encoded
    · cases encoded
    next factory registered =>
    obtain ⟨⟨bytes,keyID⟩,first,more⟩ := bindOk.mp encoded
    obtain ⟨tail,later,_⟩ := bindOk.mp more
    obtain ⟨fewest,out,src',staged⟩ := putStageCalls fresh flow first
    obtain ⟨made,_,clean⟩ := putStageOk fresh (staged fewest (Nat.le_refl _))
    cases first.symm.trans made
    obtain ⟨fewest',pp,run⟩ := ih clean later
    refine ⟨max fewest fewest',⟨pp.output,src'.seen,pp.blob,⟨algo,h.format pp.content,[],keyID⟩::pp.stages⟩,fun count enough => ?_⟩
    simp only [registered,staged count (le_trans (le_max_left ..) enough),run count (le_trans (le_max_right ..) enough),bind,Except.bind]
    rfl

theorem runGetOk {bytes} (fresh : Fresh src) (decoded : decodeChain x (reads.map Prod.fst) src.left = .ok plain)
    (done : runGet x count last reads src = .ok bytes) :
    bytes = plain := by
  induction reads generalizing src with
  | nil =>
    obtain ⟨⟨output,src'⟩,drained,finish⟩ := bindOk.mp done
    cases finish
    cases decoded
    exact (drainSourceOk fresh drained).1
  | cons read rest ih =>
    obtain ⟨out,staged,more⟩ := bindOk.mp done
    obtain ⟨next,first,later⟩ := bindOk.mp decoded
    obtain ⟨left,clean⟩ := getStageOk fresh staged first
    exact ih clean (left ▸ later) more

theorem runGetCalls (fresh : Fresh src) (decoded : decodeChain x (reads.map Prod.fst) src.left = .ok plain) :
    ∃ fewest, ∀ count, fewest ≤ count → runGet x count last reads src = .ok plain := by
  induction reads generalizing src with
  | nil =>
    cases decoded
    obtain ⟨fewest,src',drained⟩ := drainSourceCalls fresh last
    exact ⟨fewest,fun count enough => bindOk.mpr ⟨_,drained count enough,rfl⟩⟩
  | cons read rest ih =>
    obtain ⟨next,first,later⟩ := bindOk.mp decoded
    obtain ⟨fewest,out,staged⟩ := getStageCalls fresh read.2 first
    obtain ⟨left,clean⟩ := getStageOk fresh (staged fewest (Nat.le_refl _)) first
    obtain ⟨fewest',run⟩ := ih clean (left ▸ later)
    exact ⟨max fewest fewest',fun count enough => bindOk.mpr
      ⟨out,staged count (le_trans (le_max_left ..) enough),run count (le_trans (le_max_right ..) enough)⟩⟩

end

/-- The pipeline over any chunking: once drained it has hashed and counted what it should, and a read of its output
over the recorded stages gives the payload and nothing else. -/
theorem pipelineRoundTrip {x : Plugins} {h : Hasher} {ec : EncodeContext} {steps : List (String × Flow)}
    (sound : Sound x (steps.map Prod.fst)) {payload : Bytes} {src : Source UInt8} (fresh : Fresh src) (holds : src.left = payload)
    (last : Nat → Nat) :
    (∀ outs, encodeAll x ec (steps.map Prod.fst) payload = .ok outs →
      ∃ fewest pp, ∀ count, fewest ≤ count → runPut x h ec count last steps src = .ok pp) ∧
    ∀ count pp, runPut x h ec count last steps src = .ok pp →
      pp.contentHash h = h.hex payload ∧ pp.blobRef h = h.hex pp.output ∧ pp.contentBytesRead = payload.length ∧
      (∃ outs, encodeAll x ec (steps.map Prod.fst) payload = .ok outs ∧ pp.output = finalOf payload outs ∧
        pp.stages = records h (steps.map Prod.fst) outs) ∧
      ∀ (reads : List (PipelineStage × Flow)) (blob : Source UInt8) (last' : Nat → Nat),
        reads.map Prod.fst = pp.stages.reverse → Fresh blob → blob.left = pp.output →
        (∀ count bytes, runGet x count last' reads blob = .ok bytes → bytes = payload) ∧
        ∃ fewest, ∀ count, fewest ≤ count → runGet x count last' reads blob = .ok payload := by
  subst holds
  refine ⟨fun outs encoded => runPutCalls fresh encoded,fun count pp done => ?_⟩
  obtain ⟨outs,encoded,content,blobSeen,output,stages⟩ := runPutOk fresh done
  refine ⟨?_,?_,?_,⟨outs,encoded,output,stages⟩,fun reads blob last' reversed clean stored => ?_⟩
  · rw [PutPipeline.contentHash,content]
  · rw [PutPipeline.blobRef,blobSeen]
  · rw [PutPipeline.contentBytesRead,content]
  · have decoded : decodeChain x (reads.map Prod.fst) blob.left = .ok src.left := by
      rw [reversed,stages,stored,output]
      exact decodeAll sound (fun _ mem => mem) encoded
    exact ⟨fun count bytes read => runGetOk clean decoded read,runGetCalls clean decoded⟩

def samplePlugins : Plugins :=
  { registry := fun algo =>
      if algo = "zstd" then some (.compressor (fun b => 0x28::b) fun b => match b with
        | 0x28::rest => .ok rest
        | _ => .error (.other "zstd: magic number mismatch"))
      else if algo = "aes-gcm" then some (.aesgcm (.pinned [9])) else none
    crypto := sampleCrypto, newGCM := fun _ => some taggingAEAD }

theorem sampleSound (algos : List String) : Sound samplePlugins algos where
  inverts := by
    intro algo _ encode decode registered bytes
    simp only [samplePlugins] at registered
    split at registered
    · cases registered
      rfl
    · split at registered <;> cases registered
  ideal := by
    intro key aead made
    cases made
    exact ⟨taggingIdeal,rfl⟩
  usable := by
    intro algo _ getKeys registered
    simp only [samplePlugins] at registered
    split at registered
    · cases registered
    · split at registered <;> cases registered

def singly : Flow := ⟨fun _ => 0,fun _ => 0,fun bytes => bytes.map fun b => [b],flatMap_singleton',true⟩
def sampleHasher : Hasher := ⟨"sha256",fun b => 0::0::b,Pipeline.paddedLong⟩
def sampleSteps : List (String × Flow) := [("zstd",singly),("aes-gcm",singly)]
def sampleInput : Source UInt8 := ⟨[[1],[],[2]],.eof,true,[]⟩

theorem compressedSealed : ∃ pp, runPut samplePlugins sampleHasher ⟨"",.random,2⟩ 60 (fun _ => 0) sampleSteps sampleInput = .ok pp ∧
    pp.contentHash sampleHasher = "00000102" ∧ pp.contentBytesRead = 2 ∧
    ∃ fewest, ∀ count, fewest ≤ count →
      runGet samplePlugins count (fun k => k) (pp.stages.reverse.map fun stage => (stage,singly)) ⟨[pp.output],.eof,false,[]⟩ = .ok [1,2] := by
  have drained : (runPut samplePlugins sampleHasher ⟨"",.random,2⟩ 60 (fun _ => 0) sampleSteps sampleInput).toOption.isSome = true := by
    decide +kernel
  cases run : runPut samplePlugins sampleHasher ⟨"",.random,2⟩ 60 (fun _ => 0) sampleSteps sampleInput with
  | error fault =>
    rw [run] at drained
    cases drained
  | ok pp =>
    obtain ⟨hash,_,read,_,back⟩ := (pipelineRoundTrip (sampleSound _) ⟨rfl,rfl⟩ rfl fun _ => 0).2 60 pp run
    refine ⟨pp,rfl,hash.trans (by decide +kernel),read,?_⟩
    refine (back (pp.stages.reverse.map fun stage => (stage,singly)) ⟨[pp.output],.eof,false,[]⟩ (fun k => k) ?_ ⟨rfl,rfl⟩ ?_).2
    · rw [map_map]
      exact map_id _
    · exact append_nil _

end Scrinium.PipelineStream
