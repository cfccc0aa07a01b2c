import Scrinium.CustomIndexes
import Scrinium.DecimalText
import Scrinium.OwnedRows
import Scrinium.Vfsmeta

/-! The provenance index (x/provenance: schema.go, keys.go, index.go and Done). -/
namespace Scrinium.Provenance
open Keyed Domain SqliteIndex Substrate CustomIndexes Trace OwnedRows List
open ByteKeys (utf8 join cut)
open scoped ByteKeys

structure Block where
  v : Int
  rel : List String
  op : String
  params : Bytes
  pkey : String
  repro : Bool
  outcome : String
  seq : Int
  deriving DecidableEq

def schemaVersion : Int := 1
def outcomeOK : String := "ok"

structure Library where
  pocket : Vfsmeta.Json
  unmarshalBlock : Bytes → Option Block
  validJson : Bytes → Bool
  sha256 : Bytes → Bytes

structure Config where
  supersedeRel : String
  deriving DecidableEq

def Config.supersede (cfg : Config) : String := if cfg.supersedeRel = "" then "supersedes" else cfg.supersedeRel
def Block.normalized (b : Block) : Block := if b.outcome = "" then {b with outcome := outcomeOK} else b

def Block.validate (lib : Library) (b : Block) (edges : Nat) : Except Error Unit :=
  if b.v ≠ schemaVersion then .error (.other "unsupported schema version")
  else if b.rel.length ≠ edges then .error (.other "relation kinds for edges")
  else if "" ∈ b.rel then .error (.other "empty relation kind")
  else if 0 < edges ∧ b.op = "" then .error (.other "inputs but no operation named")
  else if b.params ≠ [] ∧ lib.validJson b.params = false then .error (.other "params are not valid JSON")
  else if b.seq < 0 then .error (.other "negative sequence number")
  else .ok ()

def decode (lib : Library) (ext : Bytes) : Except Error (Option Block) :=
  match Vfsmeta.pocketGet lib.pocket ext "provenance" with
  | .error _ => .error (.other "provenance: Ext is not a JSON object")
  | .ok none => .ok none
  | .ok (some raw) =>
    match lib.unmarshalBlock raw with
    | none => .error (.other "provenance: decode block")
    | some b => if b.v ≠ schemaVersion then .ok none else .ok (some b.normalized)

section

def tableByParent : String := "byParent"
def tableByChild : String := "byChild"
def tableByRel : String := "byRel"
def tableRecords : String := "records"
def tableOps : String := "ops"
def tableHeads : String := "heads"
def opsOK : Bytes := utf8 "ok"
def opsFail : Bytes := utf8 "fail"
def mark : Bytes := utf8 "1"
def posWidth : Nat := 5
def padPos (i : Nat) : Bytes := utf8 (String.ofList (DecimalText.padded posWidth i))
def boolStr (v : Bool) : Bytes := if v then utf8 "1" else utf8 "0"
def inputsKeyOf (lib : Library) (refs : List Bytes) : Bytes := utf8 (HexText.encode (lib.sha256 (refs.flatMap fun ref => ref ++ [0])))

structure Record where
  child : Bytes
  edges : List (Bytes × Bytes)
  pkey : Bytes
  outcome : Bytes
  repro : Bool
  deriving DecidableEq

variable (lib : Library) (sup : Bytes) (r : Record)

def Record.inputsKey : Bytes := inputsKeyOf lib (r.edges.map Prod.fst)
def okKey (pkey inputs : Bytes) : Bytes := join opsOK (join pkey inputs)
def failKey (parent rel pkey child : Bytes) : Bytes := join opsFail (join parent (join rel (join pkey child)))

def edgeRows (edge : (Bytes × Bytes) × Nat) : List ((String × Bytes) × Bytes) :=
  [((tableByParent,join edge.1.1 (join edge.1.2 r.child)),join (padPos edge.2) r.outcome),
   ((tableByChild,join r.child (padPos edge.2)),join edge.1.1 edge.1.2),
   ((tableByRel,join edge.1.2 (join edge.1.1 r.child)),r.outcome)] ++
  (if edge.1.2 = sup then [((tableHeads,join edge.1.1 r.child),mark)] else []) ++
  (if r.outcome ≠ opsOK ∧ r.pkey ≠ [] then [((tableOps,failKey edge.1.1 edge.1.2 r.pkey r.child),mark)] else [])

def rows : List ((String × Bytes) × Bytes) :=
  r.edges.zipIdx.flatMap (edgeRows sup r) ++
  [((tableRecords,r.child),join r.pkey (join r.outcome (join (r.inputsKey lib) (boolStr r.repro))))] ++
  (if r.outcome = opsOK ∧ r.pkey ≠ [] then [((tableOps,okKey r.pkey (r.inputsKey lib)),r.child)] else [])

end

section
variable (lib : Library) (cfg : Config)
def recordOf (m : Manifest) : Except Error (Option Record) :=
  match decode lib m.ext with
  | .error err => .error err
  | .ok none => .ok none
  | .ok (some b) =>
    match b.validate lib m.handleRefs.length with
    | .error err => .error err
    | .ok () =>
      if m.artifactID = "" then .ok none
      else if b.rel.any fun rel => rel.toList.contains '\x00' then .error (.other "relation kind contains a separator byte")
      else .ok (some ⟨utf8 m.artifactID,(m.handleRefs.map utf8).zip (b.rel.map utf8),utf8 b.pkey,utf8 b.outcome,b.repro⟩)

def index (t : Tables) (m : Manifest) : Except Error Tables :=
  match recordOf lib m with
  | .error err => .error err
  | .ok none => .ok t
  | .ok (some r) => .ok (puts t (rows lib (utf8 cfg.supersede) r))

/- SplitN by the separator: pkey, outcome and the key of the inputs. -/
def splitRecord (v : Bytes) : Bytes × Bytes × Bytes :=
  match cut v with
  | none => (v,[],[])
  | some (pkey,rest) =>
    match cut rest with
    | none => (pkey,rest,[])
    | some (outcome,rest) =>
      match cut rest with
      | none => (pkey,outcome,rest)
      | some (inputs,_) => (pkey,outcome,inputs)

def edgesOf (t : Tables) (child : Bytes) : List (Bytes × Bytes × Bytes) :=
  (scan t tableByChild (child ++ [0])).filterMap fun row => do
    let (_,pos) ← cut row.1
    let (parent,rel) ← cut row.2
    return (pos,parent,rel)

def edgeDrops (sup child pkey outcome : Bytes) (edge : Bytes × Bytes × Bytes) : List (String × Bytes) :=
  [(tableByParent,join edge.2.1 (join edge.2.2 child)),(tableByChild,join child edge.1),
   (tableByRel,join edge.2.2 (join edge.2.1 child))] ++
  (if edge.2.2 = sup then [(tableHeads,join edge.2.1 child)] else []) ++
  (if outcome ≠ opsOK ∧ pkey ≠ [] then [(tableOps,failKey edge.2.1 edge.2.2 pkey child)] else [])

def unindex (t : Tables) (artifactID : String) : Tables :=
  match get t tableRecords (utf8 artifactID) with
  | none => t
  | some raw =>
    let (pkey,outcome,inputs) := splitRecord raw
    drops t ((edgesOf t (utf8 artifactID)).flatMap (edgeDrops (utf8 cfg.supersede) (utf8 artifactID) pkey outcome) ++
      (if outcome = opsOK ∧ pkey ≠ [] then [(tableOps,okKey pkey inputs)] else []) ++ [(tableRecords,utf8 artifactID)])

def indexer : Indexer := ⟨index lib cfg,unindex cfg⟩

def done (t : Tables) (pkey : String) (inputs : List String) : Option Bytes :=
  if pkey = "" then none else get t tableOps (okKey (utf8 pkey) (inputsKeyOf lib (inputs.map utf8)))

end

section
variable {lib sup r'} {r : Record}
structure Record.Plain (r : Record) : Prop where
  child : 0 ∉ r.child
  edges : ∀ edge ∈ r.edges, 0 ∉ edge.1 ∧ 0 ∉ edge.2
  pkey : 0 ∉ r.pkey
  outcome : 0 ∉ r.outcome

theorem hexPlain (bytes : Bytes) : 0 ∉ utf8 (HexText.encode bytes) := by
  refine ByteKeys.utf8Plain fun nul => ?_
  have digit := all_eq_true.mp (HexText.encodeLower bytes) _ nul
  exact absurd digit (by decide)

theorem padPlain (i : Nat) : 0 ∉ padPos i := by
  refine ByteKeys.utf8Plain fun nul => ?_
  rw [String.toList_ofList] at nul
  exact absurd (DecimalText.paddedDigit nul) (by decide)

variable {i : Nat} {key parent rel b}

theorem padInjective {k} (same : padPos i = padPos k) : i = k := by
  have chars := congrArg String.toList (ByteKeys.utf8Injective same)
  rw [String.toList_ofList,String.toList_ofList] at chars
  rw [← DecimalText.paddedValue posWidth i,chars,DecimalText.paddedValue]

theorem okPlain : 0 ∉ opsOK := by decide

theorem failPlain : 0 ∉ opsFail := by decide

inductive EdgeKey (sup : Bytes) (r : Record) (parent rel pos : Bytes) : String × Bytes → Prop where
  | byParent : EdgeKey sup r parent rel pos (tableByParent,join parent (join rel r.child))
  | byChild : EdgeKey sup r parent rel pos (tableByChild,join r.child pos)
  | byRel : EdgeKey sup r parent rel pos (tableByRel,join rel (join parent r.child))
  | heads (supersedes : rel = sup) : EdgeKey sup r parent rel pos (tableHeads,join parent r.child)
  | failed (attempt : r.outcome ≠ opsOK ∧ r.pkey ≠ []) : EdgeKey sup r parent rel pos (tableOps,failKey parent rel r.pkey r.child)

inductive RecordKey (lib : Library) (sup : Bytes) (r : Record) : String × Bytes → Prop where
  | edge {i : Nat} {parent rel : Bytes} {key : String × Bytes} (at' : r.edges[i]? = some (parent,rel))
      (own : EdgeKey sup r parent rel (padPos i) key) : RecordKey lib sup r key
  | record : RecordKey lib sup r (tableRecords,r.child)
  | work (result : r.outcome = opsOK ∧ r.pkey ≠ []) : RecordKey lib sup r (tableOps,okKey r.pkey (r.inputsKey lib))

theorem edgeRowsKey {edge} :
    key ∈ (edgeRows sup r edge).map Prod.fst ↔ EdgeKey sup r edge.1.1 edge.1.2 (padPos edge.2) key := by
  constructor
  · intro mem
    simp only [edgeRows,map_append,mem_append,map_cons,map_nil,apply_ite (map Prod.fst),mem_ite_nil_right,mem_cons,
      not_mem_nil,or_false] at mem
    rcases mem with ((rfl | rfl | rfl) | ⟨supersedes,rfl⟩) | ⟨attempt,rfl⟩
    · exact .byParent
    · exact .byChild
    · exact .byRel
    · exact .heads supersedes
    · exact .failed attempt
  · intro own
    cases own with
    | byParent => simp [edgeRows]
    | byChild => simp [edgeRows]
    | byRel => simp [edgeRows]
    | heads supersedes => simp [edgeRows,supersedes]
    | failed attempt => simp [edgeRows,attempt]

theorem rowsKey : key ∈ (rows lib sup r).map Prod.fst ↔ RecordKey lib sup r key := by
  constructor
  · intro mem
    simp only [rows,map_append,mem_append,apply_ite (map Prod.fst),map_cons,map_nil,mem_ite_nil_right,mem_singleton] at mem
    rcases mem with (mem | rfl) | ⟨result,rfl⟩
    · obtain ⟨row,inside,rfl⟩ := mem_map.mp mem
      obtain ⟨edge,listed,of⟩ := mem_flatMap.mp inside
      exact .edge (mem_zipIdx_iff_getElem?.mp listed) (edgeRowsKey.mp (mem_map_of_mem of))
    · exact .record
    · exact .work result
  · intro own
    simp only [rows,map_append,mem_append]
    cases own with
    | @edge i parent rel _ at' own =>
      have listed : key ∈ (edgeRows sup r ((parent,rel),i)).map Prod.fst := edgeRowsKey.mpr own
      obtain ⟨row,of,rfl⟩ := mem_map.mp listed
      exact .inl (.inl (mem_map_of_mem (mem_flatMap.mpr ⟨_,mem_zipIdx_iff_getElem?.mpr at',of⟩)))
    | record => simp
    | work result => simp [result]

theorem edgePlain (plain : r.Plain) (at' : r.edges[i]? = some (parent,rel)) : 0 ∉ parent ∧ 0 ∉ rel :=
  plain.edges _ (mem_of_getElem? at')

def lastPart (key : Bytes) : Bytes := (key.reverse.takeWhile (· ≠ 0)).reverse

theorem lastPlain (plain : 0 ∉ b) : lastPart b = b := by
  unfold lastPart
  rw [takeWhile_eq_self_iff.mpr fun c mem => ?_,reverse_reverse]
  rw [mem_reverse] at mem
  exact decide_eq_true fun zero => plain (zero ▸ mem)

theorem lastJoin (a b : Bytes) : lastPart (join a b) = lastPart b := by
  unfold lastPart join
  rw [reverse_append,reverse_cons,append_assoc,takeWhile_append]
  split
  · next whole =>
    have all := ( takeWhile_prefix (l := b.reverse) fun c => decide (c ≠ 0)).eq_of_length whole
    rw [all]
    simp
  · rfl

theorem joinInjRight {a a' b'} (plain : 0 ∉ b) (plain' : 0 ∉ b') (same : join a b = join a' b') : a = a' ∧ b = b' := by
  have last : b = b' := by rw [← lastPlain plain,← lastPlain plain',← lastJoin a b,← lastJoin a' b',same]
  subst last
  exact ⟨append_cancel_right same,rfl⟩

def childOf (key : String × Bytes) : Option Bytes :=
  if key.1 = tableByChild then (cut key.2).map Prod.fst
  else if key.1 = tableOps ∧ (cut key.2).map Prod.fst = some opsOK then none
  else some (lastPart key.2)

theorem edgeChild (plain : 0 ∉ r.child) {pos} (own : EdgeKey sup r parent rel pos key) :
    childOf key = some r.child := by
  have last := lastPlain plain
  cases own with
  | byParent => simp [childOf,tableByParent,tableByChild,tableOps,lastJoin,last]
  | byChild => simp [childOf,ByteKeys.cutJoin plain]
  | byRel => simp [childOf,tableByRel,tableByChild,tableOps,lastJoin,last]
  | heads => simp [childOf,tableHeads,tableByChild,tableOps,lastJoin,last]
  | failed =>
    have other : opsFail ≠ opsOK := by decide
    simp [childOf,tableByChild,tableOps,failKey,ByteKeys.cutJoin failPlain,other,lastJoin,last]

theorem recordChild (plain : 0 ∉ r.child) (own : RecordKey lib sup r key) :
    childOf key = some r.child ∨ (r.outcome = opsOK ∧ r.pkey ≠ []) ∧ key = (tableOps,okKey r.pkey (r.inputsKey lib)) ∧
      childOf key = none := by
  cases own with
  | edge _ own => exact .inl (edgeChild plain own)
  | record => exact .inl (by simp [childOf,tableRecords,tableByChild,tableOps,lastPlain plain])
  | work result =>
    exact .inr ⟨result,rfl,by simp [childOf,tableByChild,tableOps,okKey,ByteKeys.cutJoin okPlain]⟩

structure SameWork (lib : Library) (r r' : Record) : Prop where
  result : r.outcome = opsOK
  result' : r'.outcome = opsOK
  named : r.pkey ≠ []
  pkey : r.pkey = r'.pkey
  inputs : r.inputsKey lib = r'.inputsKey lib

theorem sharedKey (plain : r.Plain) (plain' : r'.Plain) (own : RecordKey lib sup r key)
    (own' : RecordKey lib sup r' key) : r.child = r'.child ∨ SameWork lib r r' := by
  rcases recordChild plain.child own with mine | ⟨result,spelled,work⟩ <;>
    rcases recordChild plain'.child own' with theirs | ⟨result',spelled',work'⟩
  · exact .inl (someSame mine theirs)
  · rw [mine] at work'
    cases work'
  · rw [theirs] at work
    cases work
  · rw [spelled] at spelled'
    obtain ⟨_,inner⟩ := ByteKeys.joinInj okPlain okPlain (Prod.mk.inj spelled').2
    obtain ⟨pkey,inputs⟩ := ByteKeys.joinInj plain.pkey plain'.pkey inner
    exact .inr ⟨result.1,result'.1,result.2,pkey,inputs⟩

end

section
variable {lib sup r}
def recordText (lib : Library) (r : Record) : Bytes := join r.pkey (join r.outcome (join (r.inputsKey lib) (boolStr r.repro)))

variable {table key value}

theorem edgeRow {edge} (mem : ((table,key),value) ∈ edgeRows sup r edge) :
    table ≠ tableRecords ∧
      (table = tableByChild → key = join r.child (padPos edge.2) ∧ value = join edge.1.1 edge.1.2) ∧
      (table = tableOps → key = failKey edge.1.1 edge.1.2 r.pkey r.child) := by
  simp only [edgeRows,mem_append,mem_cons,mem_ite_nil_right,not_mem_nil,or_false,Prod.mk.injEq] at mem
  rcases mem with ((⟨⟨rfl,_⟩,_⟩ | ⟨⟨rfl,rfl⟩,rfl⟩ | ⟨⟨rfl,_⟩,_⟩) | ⟨_,⟨rfl,_⟩,_⟩) | ⟨_,⟨rfl,rfl⟩,_⟩
  · exact ⟨by decide,fun same => absurd same (by decide),fun same => absurd same (by decide)⟩
  · exact ⟨by decide,fun _ => ⟨rfl,rfl⟩,fun same => absurd same (by decide)⟩
  · exact ⟨by decide,fun same => absurd same (by decide),fun same => absurd same (by decide)⟩
  · exact ⟨by decide,fun same => absurd same (by decide),fun same => absurd same (by decide)⟩
  · exact ⟨by decide,fun same => absurd same (by decide),fun _ => rfl⟩

theorem rowCases (mem : ((table,key),value) ∈ rows lib sup r) :
    (∃ i parent rel, r.edges[i]? = some (parent,rel) ∧ ((table,key),value) ∈ edgeRows sup r ((parent,rel),i)) ∨
    ((table,key),value) = ((tableRecords,r.child),recordText lib r) ∨
    (r.outcome = opsOK ∧ r.pkey ≠ []) ∧ ((table,key),value) = ((tableOps,okKey r.pkey (r.inputsKey lib)),r.child) := by
  simp only [rows,mem_append,mem_ite_nil_right,mem_singleton] at mem
  rcases mem with (mem | record) | work
  · obtain ⟨edge,listed,of⟩ := mem_flatMap.mp mem
    exact .inl ⟨edge.2,edge.1.1,edge.1.2,mem_zipIdx_iff_getElem?.mp listed,of⟩
  · exact .inr (.inl record)
  · exact .inr (.inr work)

theorem recordValue : valueIn (rows lib sup r) (tableRecords,r.child) = some (recordText lib r) := by
  refine valueOnly (by simp [rows,recordText]) fun other mem => ?_
  rcases rowCases mem with ⟨_,_,_,_,edge⟩ | same | ⟨_,same⟩
  · exact absurd rfl (edgeRow edge).1
  · exact (Prod.mk.inj same).2
  · exact absurd (Prod.mk.inj (Prod.mk.inj same).1).1 (by decide)

theorem childValue : valueIn (rows lib sup r) (tableByChild,key) = some value ↔
    ∃ i parent rel, r.edges[i]? = some (parent,rel) ∧ key = join r.child (padPos i) ∧ value = join parent rel := by
  have source : ∀ {value}, ((tableByChild,key),value) ∈ rows lib sup r →
      ∃ i parent rel, r.edges[i]? = some (parent,rel) ∧ key = join r.child (padPos i) ∧ value = join parent rel := by
    intro value mem
    rcases rowCases mem with ⟨i,parent,rel,at',edge⟩ | same | ⟨_,same⟩
    · exact ⟨i,parent,rel,at',(edgeRow edge).2.1 rfl⟩
    · exact absurd (Prod.mk.inj (Prod.mk.inj same).1).1 (by decide)
    · exact absurd (Prod.mk.inj (Prod.mk.inj same).1).1 (by decide)
  constructor
  · exact fun found => source (valueMem found)
  rintro ⟨i,parent,rel,at',rfl,rfl⟩
  refine valueOnly ?_ fun other mem => ?_
  · simp only [rows,mem_append]
    refine .inl (.inl (mem_flatMap.mpr ⟨((parent,rel),i),mem_zipIdx_iff_getElem?.mpr at',?_⟩))
    simp [edgeRows]
  · -- the positions are apart, so the key is that of one edge
    obtain ⟨k,parent',rel',there,spelled,rfl⟩ := source mem
    have pos : padPos i = padPos k := by
      unfold join at spelled
      exact (List.cons.inj (append_cancel_left spelled)).2
    cases padInjective pos
    cases someSame at' there
    rfl

theorem workValue {pkey inputs} (noZero : 0 ∉ inputs) :
    valueIn (rows lib sup r) (tableOps,okKey pkey inputs) = some value ↔
      (r.outcome = opsOK ∧ r.pkey ≠ []) ∧ pkey = r.pkey ∧ inputs = r.inputsKey lib ∧ value = r.child := by
  have source : ∀ {value}, ((tableOps,okKey pkey inputs),value) ∈ rows lib sup r →
      (r.outcome = opsOK ∧ r.pkey ≠ []) ∧ pkey = r.pkey ∧ inputs = r.inputsKey lib ∧ value = r.child := by
    intro value mem
    rcases rowCases mem with ⟨i,parent,rel,at',edge⟩ | same | ⟨result,same⟩
    · have spelled := (edgeRow edge).2.2 rfl
      exact absurd (ByteKeys.joinInj okPlain failPlain spelled).1 (by decide)
    · exact absurd (Prod.mk.inj (Prod.mk.inj same).1).1 (by decide)
    obtain ⟨key,value'⟩ := Prod.mk.inj same
    obtain ⟨_,inner⟩ := ByteKeys.joinInj okPlain okPlain (Prod.mk.inj key).2
    obtain ⟨pkey',inputs'⟩ := joinInjRight noZero (hexPlain _) inner
    exact ⟨result,pkey',inputs',value'⟩
  constructor
  · exact fun found => source (valueMem found)
  · rintro ⟨result,rfl,rfl,rfl⟩
    exact valueOnly (by simp [rows,result]) fun other mem => (source mem).2.2.2

theorem splitText (plain : r.Plain) : splitRecord (recordText lib r) = (r.pkey,r.outcome,r.inputsKey lib) := by
  have inputs : 0 ∉ r.inputsKey lib := hexPlain _
  simp only [splitRecord,recordText,ByteKeys.cutJoin plain.pkey,ByteKeys.cutJoin plain.outcome,ByteKeys.cutJoin inputs]

end

section

theorem edgeDropsRows (sup : Bytes) (r : Record) (edge : (Bytes × Bytes) × Nat) :
    edgeDrops sup r.child r.pkey r.outcome (padPos edge.2,edge.1.1,edge.1.2) = (edgeRows sup r edge).map Prod.fst := by
  simp only [edgeDrops,edgeRows,map_append,map_cons,map_nil,apply_ite (List.map Prod.fst)]

def OnGraph (key : String × Bytes) : Prop := key.1 = tableByParent ∨ key.1 = tableByChild ∨ key.1 = tableRecords

variable {lib} {cfg : Config} {live t r} (holds : HoldsOn OnGraph live (rows lib (utf8 cfg.supersede)) t)
    (plain : ∀ r, live r → 0 ∉ r.child)
include holds plain

omit plain in
theorem recordHeld {child raw} : get t tableRecords child = some raw ↔
    ∃ r, live r ∧ r.child = child ∧ raw = recordText lib r := by
  rw [Substrate.get,holds (tableRecords,child) (.inr (.inr rfl))]
  constructor
  · rintro ⟨r,alive,found⟩
    rcases rowCases (valueMem found) with ⟨_,_,_,_,edge⟩ | same | ⟨_,same⟩
    · exact absurd rfl (edgeRow edge).1
    · obtain ⟨key,value⟩ := Prod.mk.inj same
      exact ⟨r,alive,(Prod.mk.inj key).2.symm,value⟩
    · exact absurd (Prod.mk.inj (Prod.mk.inj same).1).1 (by decide)
  · rintro ⟨r,alive,rfl,rfl⟩
    exact ⟨r,alive,recordValue⟩

theorem edgesListed (alive : live r) (one : ∀ r', live r' → r'.child = r.child → r' = r) {pos parent rel} :
    (pos,parent,rel) ∈ edgesOf t r.child ↔
      ∃ i source kind, r.edges[i]? = some (source,kind) ∧ pos = padPos i ∧ cut (join source kind) = some (parent,rel) := by
  have scanned : ∀ {key value}, (key,value) ∈ scan t tableByChild (r.child ++ [0]) ↔
      ∃ i parent rel, r.edges[i]? = some (parent,rel) ∧ key = join r.child (padPos i) ∧ value = join parent rel := by
    intro key value
    rw [scanMem,Substrate.get,holds (tableByChild,key) (.inr (.inl rfl))]
    constructor
    · rintro ⟨⟨r',there,found⟩,starts⟩
      obtain ⟨i,parent,rel,at',rfl,rfl⟩ := childValue.mp found
      have own := (ByteKeys.joinPrefix (plain r' there) (padPlain i)).mp starts
      cases one r' there own.symm
      exact ⟨i,parent,rel,at',rfl,rfl⟩
    · rintro ⟨i,parent,rel,at',rfl,rfl⟩
      exact ⟨⟨r,alive,childValue.mpr ⟨i,parent,rel,at',rfl,rfl⟩⟩,
        (ByteKeys.joinPrefix (plain r alive) (padPlain i)).mpr rfl⟩
  rw [edgesOf,mem_filterMap]
  constructor
  · rintro ⟨⟨key,value⟩,mem,read⟩
    obtain ⟨i,source,kind,at',rfl,rfl⟩ := scanned.mp mem
    simp only [ByteKeys.cutJoin (plain r alive),Option.bind_eq_bind,Option.bind_some] at read
    obtain ⟨⟨parent',rel'⟩,cutAt,last⟩ := Option.bind_eq_some_iff.mp read
    cases last
    exact ⟨i,source,kind,at',rfl,cutAt⟩
  · rintro ⟨i,source,kind,at',rfl,cutAt⟩
    refine ⟨(join r.child (padPos i),join source kind),scanned.mpr ⟨i,source,kind,at',rfl,rfl⟩,?_⟩
    simp only [ByteKeys.cutJoin (plain r alive),cutAt,Option.bind_eq_bind,Option.bind_some]
    rfl

variable {id}

theorem unindexDrops (alive : live r) (whole : r.Plain) (own : r.child = utf8 id)
    (one : ∀ r', live r' → r'.child = r.child → r' = r) :
    ∃ keys, unindex cfg t id = drops t keys ∧
      ∀ key, key ∈ keys ↔ key ∈ (rows lib (utf8 cfg.supersede) r).map Prod.fst := by
  have held : get t tableRecords (utf8 id) = some (recordText lib r) := (recordHeld holds).mpr ⟨r,alive,own,rfl⟩
  refine ⟨_,by simp only [unindex,held,splitText whole]; rfl,fun key => ?_⟩
  rw [rowsKey,← own]
  simp only [mem_append,mem_flatMap,mem_ite_nil_right,mem_singleton]
  constructor
  · rintro ((⟨⟨pos,parent,rel⟩,listed,of⟩ | ⟨result,rfl⟩) | rfl)
    · obtain ⟨i,source,kind,at',rfl,cutAt⟩ := (edgesListed holds plain alive one).mp listed
      rw [ByteKeys.cutJoin (edgePlain whole at').1] at cutAt
      cases cutAt
      rw [edgeDropsRows _ r ((parent,rel),i)] at of
      exact .edge at' (edgeRowsKey.mp of)
    · exact .work result
    · exact .record
  · intro of
    cases of with
    | @edge i parent rel _ at' of =>
      refine .inl (.inl ⟨(padPos i,parent,rel),(edgesListed holds plain alive one).mpr
        ⟨i,parent,rel,at',rfl,ByteKeys.cutJoin (edgePlain whole at').1 rel⟩,?_⟩)
      rw [edgeDropsRows _ r ((parent,rel),i)]
      exact edgeRowsKey.mpr of
    | record => exact .inr rfl
    | work result => exact .inl (.inr ⟨result,rfl⟩)

omit plain in
theorem unindexAbsent (absent : ∀ r, live r → r.child ≠ utf8 id) : unindex cfg t id = t := by
  have none : get t tableRecords (utf8 id) = none := Option.eq_none_iff_forall_ne_some.mpr fun raw held => by
    obtain ⟨r,alive,own,_⟩ := (recordHeld holds).mp held
    exact absent r alive own
  simp only [unindex,none]

end

end Scrinium.Provenance
