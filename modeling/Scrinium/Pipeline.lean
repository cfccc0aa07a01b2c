import Scrinium.Layout

/-! The transformation pipeline over whole streams: encoders in order, with one recorded stage each, and the decoders of
the recorded stages in reverse order. -/
namespace Scrinium.Pipeline
open Domain Trace List

structure Hasher where
  name : String
  sum : Bytes → Bytes
  long : ∀ bytes, 2 ≤ (sum bytes).length

theorem paddedLong (bytes : Bytes) : 2 ≤ (0::0::bytes).length := Nat.le_add_left 2 _

theorem pairLong (bytes : Bytes) : 2 ≤ [0,bytes.length.toUInt8].length := Nat.le_refl 2

section
variable (h : Hasher) (bytes : Bytes)
def Hasher.hex : String := HexText.encode (h.sum bytes)
def Hasher.format : String := h.name ++ "-" ++ h.hex bytes

theorem sumNe : h.sum bytes ≠ [] := by
  intro empty
  have long := h.long bytes
  simp [empty] at long

theorem hexShape : Layout.validateRefShape (h.hex bytes) = .ok () := by
  refine Layout.refShape.mpr ⟨?_,HexText.encodeLower _⟩
  have long := h.long bytes
  rw [Hasher.hex,HexText.encodeLength]
  omega

end

structure Encoded where
  output : Bytes
  iv : Bytes
  keyID : String

structure TransformerFactory where
  encode : Bytes → Encoded
  decode : PipelineStage → Bytes → Except Error Bytes
  aead : Bool

abbrev TransformerRegistry := String → Option TransformerFactory
def recordStage (h : Hasher) (algo : String) (e : Encoded) : PipelineStage := ⟨algo,h.format e.output,e.iv,e.keyID⟩

def buildPut (h : Hasher) (registry : TransformerRegistry) :
    List String → Bytes → Except Error (Bytes × List PipelineStage)
  | [], input => .ok (input,[])
  | algo::rest, input =>
    match registry algo with
    | none => .error .unsupportedAlgorithm
    | some factory => do
      let encoded := factory.encode input
      let (output,stages) ← buildPut h registry rest encoded.output
      return (output,recordStage h algo encoded::stages)

def decodeStage (registry : TransformerRegistry) (stage : PipelineStage) (input : Bytes) : Except Error Bytes :=
  match registry stage.algorithm with
  | none => .error .unsupportedAlgorithm
  | some factory => factory.decode stage input

def buildGet (registry : TransformerRegistry) (stages : List PipelineStage) (underlying : Bytes) : Except Error Bytes :=
  stages.foldr (fun stage current => do decodeStage registry stage (← current)) (.ok underlying)

def validateAlgos (registry : TransformerRegistry) : List String → Except Error Unit
  | [] => .ok ()
  | algo::rest =>
    match registry algo with
    | none => .error .unsupportedAlgorithm
    | some factory =>
      if factory.aead && rest ≠ [] then .error .invalidPipeline
      else validateAlgos registry rest

def Inverts (h : Hasher) (registry : TransformerRegistry) (algo : String) : Prop :=
  ∀ factory, registry algo = some factory → ∀ input,
    factory.decode (recordStage h algo (factory.encode input)) (factory.encode input).output = .ok input

variable {h registry algos input output stages}

theorem buildPutAlgos (ok : buildPut h registry algos input = .ok (output,stages)) :
    stages.map PipelineStage.algorithm = algos := by
  induction algos generalizing input stages with
  | nil =>
    cases ok
    rfl
  | cons algo rest ih =>
    unfold buildPut at ok
    split at ok
    · contradiction
    obtain ⟨⟨out,tail⟩,inner,last⟩ := bindOk.mp ok
    cases last
    rw [map_cons,ih inner]
    rfl

theorem buildGetPut (inverse : ∀ algo ∈ algos, Inverts h registry algo)
    (ok : buildPut h registry algos input = .ok (output,stages)) :
    buildGet registry stages output = .ok input := by
  induction algos generalizing input stages with
  | nil =>
    cases ok
    rfl
  | cons algo rest ih =>
    unfold buildPut at ok
    split at ok
    · contradiction
    next factory registered =>
    obtain ⟨⟨out,tail⟩,inner,last⟩ := bindOk.mp ok
    cases last
    have back := ih (fun a mem => inverse a (mem_cons_of_mem algo mem)) inner
    have first := inverse algo mem_cons_self factory registered input
    unfold buildGet at back ⊢
    rw [foldr_cons,back]
    simpa [bind,Except.bind,decodeStage,recordStage,registered] using first

end Scrinium.Pipeline
