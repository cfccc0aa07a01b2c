import Scrinium.ManifestEncode
import Scrinium.Vfsmeta

/-! JSON documents at the boundary: the decoders that ask for a single one (artifact/body.go, descriptor.go), and the pocket of
an Ext (domain/extpocket). -/
namespace Scrinium.Documents
open HexText (Bytes)
open ManifestCodec (JsonBody maxNestingDepth)
open StoreDescriptor (Descriptor)
open Keyed Trace Vfsmeta List

section

def isSpace (b : UInt8) : Bool := b == 32 || b == 9 || b == 10 || b == 13

/- json.Decoder.More: there is a next byte, and it closes neither an array nor an object. -/
def more (rest : Bytes) : Bool :=
  match rest.dropWhile isSpace with
  | [] => false
  | b::_ => b != 93 && b != 125

/- json.Decoder.Decode into one record: a document, its value and what follows it. A null leaves the zero record. -/
structure Decoder (α : Type) where
  object : Bytes → Prop
  zero : α
  decode : Bytes → Option (α × Bytes)
  reads : ∀ {b v rest}, decode b = some (v,rest) → v ≠ zero →
    ∃ lead text, b = lead ++ text ++ rest ∧ lead.all isSpace = true ∧ object text

variable {α : Type} (d : Decoder α)

/- `valid` is what is asked of the record itself. -/
def unmarshal (valid : α → Bool) (b : Bytes) : Option α :=
  match d.decode b with
  | none => none
  | some (v,rest) => if more rest then none else if valid v then some v else none

def unmarshalBodyJSON (d : Decoder JsonBody) : Bytes → Option JsonBody :=
  unmarshal d fun b => b.schemaVersion = ManifestCodec.schemaVersion

def descriptorUnmarshal (d : Decoder Descriptor) : Bytes → Option Descriptor :=
  unmarshal d fun v => (StoreDescriptor.validate v).isOk

def Single (b : Bytes) (v : α) : Prop :=
  ∃ lead text trail, b = lead ++ text ++ trail ∧ d.object text ∧ d.decode b = some (v,trail) ∧
    lead.all isSpace = true ∧ trail.all isSpace = true

def Closes (b : Bytes) : Prop := ∃ v rest, d.decode b = some (v,rest) ∧ ∃ c tail, rest.dropWhile isSpace = c::tail ∧ (c = 93 ∨ c = 125)

variable {d} {valid b v}

theorem unmarshalIff : unmarshal d valid b = some v ↔ unmarshal d (fun _ => true) b = some v ∧ valid v = true := by
  unfold unmarshal
  cases d.decode b with
  | none => simp
  | some read => simp only [Option.ite_none_left_eq_some,Option.ite_none_right_eq_some]; grind

theorem bodyRead {d : Decoder JsonBody} {lib : ManifestCodec.Library} {m}
    (parses : ∀ {v}, lib.parseBody b = .ok v ↔ unmarshal d (fun _ => true) b = some v)
    (ok : ManifestCodec.unmarshalBodyJSON lib b = .ok m) : ∃ v, unmarshalBodyJSON d b = some v := by
  obtain ⟨v,parsed,rest⟩ := bindOk.mp ok
  split at rest
  · cases rest
  next version =>
    exact ⟨v,unmarshalIff.mpr ⟨parses.mp (mapErrorOk.mp parsed),decide_eq_true (not_not.mp version)⟩⟩

theorem descriptorRead {d : Decoder Descriptor} {x : StoreDescriptor.Codec} {v}
    (parses : ∀ {v}, x.parse b = .ok v ↔ unmarshal d (fun _ => true) b = some v) :
    StoreDescriptor.unmarshal x b = .ok v ↔ descriptorUnmarshal d b = some v := by
  unfold StoreDescriptor.unmarshal descriptorUnmarshal
  rw [unmarshalIff,← parses,bindOk]
  constructor
  · rintro ⟨v',parsed,rest⟩
    obtain ⟨_,valid,last⟩ := bindOk.mp rest
    cases last
    exact ⟨parsed,by rw [valid]; rfl⟩
  · rintro ⟨parsed,valid⟩
    refine ⟨v,parsed,bindOk.mpr ⟨(),?_,rfl⟩⟩
    cases checked : StoreDescriptor.validate v with
    | ok _ => rfl
    | error err => simp [checked,Except.isOk,Except.toBool] at valid

/-- What a decoder accepts is one object with nothing but space around it, exactly if no closing bracket follows. -/
theorem singleExactly (refuses : valid d.zero = false) (accepted : unmarshal d valid b = some v) : Single d b v ↔ ¬ Closes d b := by
  unfold unmarshal at accepted
  rcases read : d.decode b with _ | ⟨v',rest⟩
  · simp [read] at accepted
  simp only [read,Option.ite_none_left_eq_some,Option.ite_none_right_eq_some,Option.some.injEq] at accepted
  obtain ⟨last,fine,rfl⟩ := accepted
  have some' : v' ≠ d.zero := by
    rintro rfl
    rw [refuses] at fine
    cases fine
  obtain ⟨lead,text,parts,spaces,object⟩ := d.reads read some'
  have ended : rest.all isSpace = true ↔ rest.dropWhile isSpace = [] := by
    rw [dropWhile_eq_nil_iff,all_eq_true]
  constructor
  · rintro ⟨_,_,trail,_,_,again,_,clean⟩ ⟨_,_,read',c,tail,left,_⟩
    cases read.symm.trans again
    cases read.symm.trans read'
    rw [ended.mp clean] at left
    cases left
  · intro open'
    refine ⟨lead,text,rest,parts,object,read,spaces,ended.mpr ?_⟩
    cases left : rest.dropWhile isSpace with
    | nil => rfl
    | cons c tail =>
      refine absurd ⟨v',rest,read,c,tail,left,?_⟩ open'
      by_contra other
      simp only [not_or] at other
      exact last (by simp [more,left,other])

def braces : Decoder Bool where
  object text := text = [123,125]
  zero := false
  decode b := if b.take 2 = [123,125] then some (true,b.drop 2) else none
  reads {b v rest} read _ := by
    split at read
    · next here =>
      cases read
      exact ⟨[],[123,125],by rw [nil_append,← here,take_append_drop],rfl,rfl⟩
    · cases read

theorem secondBraceAccepted : unmarshal braces id [123,125,125,120] = some true := by decide

theorem spaceAccepted : Single braces [123,125,32] true := by
  have accepted : unmarshal braces id [123,125,32] = some true := by decide
  exact (singleExactly rfl accepted).mpr (by rintro ⟨_,_,read,c,tail,left,_⟩; cases read; cases left)

end

section

structure Library extends Json where
  isNull : Bytes → Bool
  compact : Bytes → Bytes
  nesting : Bytes → Nat

def Library.Shallow (l : Library) (obj : Table String Bytes) : Prop :=
  ∀ k v, obj.lookup k = some v → l.nesting v < maxNestingDepth

structure Lawful (l : Library) : Prop where
  null : ∀ {ext}, l.isNull ext = true → l.unmarshalObject ext = some ∅
  full : ∀ {ext obj k}, l.unmarshalObject ext = some obj → obj.lookup k ≠ some []
  nested : ∀ {ext obj}, l.unmarshalObject ext = some obj → l.Shallow obj
  once : ∀ v, l.compact (l.compact v) = l.compact v
  filled : ∀ {obj doc}, l.marshalObject obj = some doc → doc ≠ []
  returns : ∀ {obj doc}, l.marshalObject obj = some doc → l.Shallow obj →
    ∃ obj', l.unmarshalObject doc = some obj' ∧ ∀ k, obj'.lookup k = (obj.lookup k).map l.compact
  deep : ∀ {obj doc}, l.marshalObject obj = some doc → ¬ l.Shallow obj → l.unmarshalObject doc = none

variable (l : Library)

/- json.Unmarshal into a map, which a null makes nil. -/
def unmarshalMap (ext : Bytes) : Option (Option (Table String Bytes)) :=
  (l.unmarshalObject ext).map fun obj => if l.isNull ext then none else some obj

/- extpocket.Put. To assign an entry of a nil map panics. -/
def put (ext : Bytes) (key : String) (value : Bytes) : Option (Except Fault Bytes) :=
  match if ext = [] then some (some ∅) else unmarshalMap l ext with
  | none => some (.error .notObject)
  | some obj => obj.map fun obj => marshalled l.toJson (obj.insert key value)

def value (ext : Bytes) (k : String) : Except Fault (Option Bytes) := (pocketGet l.toJson ext k).map (Option.map l.compact)

structure Lens (ext : Bytes) (key : String) (v out : Bytes) : Prop where
  own : value l out key = .ok (some (l.compact v))
  others : ∀ k, k ≠ key → value l out k = value l ext k
  again : ∀ v' twice direct, put l out key v' = some (.ok twice) → put l ext key v' = some (.ok direct) →
    ∀ k, value l twice k = value l direct k

variable {l ext key v out}

theorem putPocket (lawful : Lawful l) :
    put l ext key v = if ext ≠ [] ∧ l.isNull ext = true then none else some (pocketPut l.toJson ext key v) := by
  by_cases empty : ext = []
  · simp [put,pocketPut,empty]
  by_cases null : l.isNull ext = true
  · simp [put,unmarshalMap,empty,null,lawful.null null]
  · simp only [put,pocketPut,unmarshalMap,empty,null,if_false]
    cases l.unmarshalObject ext <;> simp

theorem getObject (lawful : Lawful l) {obj} (filled : ext ≠ []) (read : l.unmarshalObject ext = some obj) (k) :
    pocketGet l.toJson ext k = .ok (obj.lookup k) := by
  rw [pocketGet,if_neg filled,read]
  have full := lawful.full read (k := k)
  cases found : obj.lookup k with
  | none => simp [found]
  | some v =>
    rw [found] at full
    simpa [found] using full

theorem putObject (lawful : Lawful l) (done : pocketPut l.toJson ext key v = .ok out) :
    ∃ obj : Table String Bytes, l.marshalObject (obj.insert key v) = some out ∧ l.Shallow obj ∧
      ∀ k, pocketGet l.toJson ext k = .ok (obj.lookup k) := by
  have written {obj} (saved : marshalled l.toJson obj = .ok out) : l.marshalObject obj = some out := by
    unfold marshalled at saved
    split at saved <;> simp_all
  unfold pocketPut at done
  split at done
  · next empty => exact ⟨∅,written done,fun k v found => by simp at found,fun k => by simp [pocketGet,empty]⟩
  · next filled =>
    split at done
    · cases done
    · next obj read => exact ⟨obj,written done,lawful.nested read,getObject lawful filled read⟩

theorem putValue (lawful : Lawful l) (done : put l ext key v = some (.ok out)) (k) :
    value l out k = if l.nesting v < maxNestingDepth then
      if k = key then .ok (some (l.compact v)) else value l ext k else .error .notObject := by
  rw [putPocket lawful] at done
  split at done
  · cases done
  obtain ⟨obj,wrote,shallow,before⟩ := putObject lawful (Option.some.inj done)
  have filled := lawful.filled wrote
  have fits : l.Shallow (obj.insert key v) ↔ l.nesting v < maxNestingDepth := by
    constructor
    · intro all
      exact all key v (by rw [lookupInsert,if_pos rfl])
    · intro own k' v' found
      rw [lookupInsert] at found
      split at found
      · cases found
        exact own
      · exact shallow k' v' found
  split
  next own =>
    obtain ⟨obj',read,same⟩ := lawful.returns wrote (fits.mpr own)
    rw [value,value,getObject lawful filled read,before,same,lookupInsert]
    split
    · simp [Except.map,lawful.once]
    · cases obj.lookup k <;> simp [Except.map,lawful.once]
  next deep =>
    rw [value,pocketGet,if_neg filled,lawful.deep wrote (fits.not.mpr deep)]
    rfl

def oneKey : Library where
  unmarshalObject ext := if ext = [1] then some ((∅ : Table String Bytes).insert "k" [1]) else if ext = [0] then some ∅ else none
  marshalObject obj := if obj = (∅ : Table String Bytes).insert "k" [1] then some [1] else none
  unmarshalWire _ := none
  marshalWire _ := none
  isNull ext := ext = [0]
  compact := id
  nesting _ := 0

theorem oneKeyLawful : Lawful oneKey where
  null null := by simp_all [oneKey]
  full {ext obj k} read := by
    simp only [oneKey] at read
    split_ifs at read
    · cases read
      rw [lookupInsert]
      split <;> simp
    · cases read
      simp
  nested _ _ _ _ := show 0 < 10000 by decide
  once _ := rfl
  filled {obj doc} wrote := by
    obtain ⟨_,same⟩ := Option.ite_none_right_eq_some.mp wrote
    cases same
    decide
  returns {obj doc} wrote _ := by
    obtain ⟨rfl,same⟩ := Option.ite_none_right_eq_some.mp wrote
    cases same
    exact ⟨_,rfl,fun k => by simp [oneKey]⟩
  deep _ deep := absurd (fun _ _ _ => show 0 < 10000 by decide) deep

end

end Scrinium.Documents
