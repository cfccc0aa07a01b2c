import Scrinium.Trace
import Scrinium.ViewClaims

/-! Runs of a View. Every tree is the one its artifacts call for as long as no two of them stand in each other's way. -/
namespace Scrinium.Projection
open List hiding after
open Domain Hierarchy Trace Function
open Pathx (Path ofString)

def declaredIn (x : Setup) (root : String) (m : Manifest) : Bool := (x.defs.find? fun d => d.root = root).any fun d => d.isDir m

def claims (x : Setup) (artifacts : String → Option Record) (root : String) : Claims := fun id =>
  (artifacts id).bind fun rec => (rec.paths root).map fun path => (path,⟨rec.manifest,declaredIn x root rec.manifest⟩)

variable {x : Setup} {m}

section
variable {p q d}
theorem defFound (mem : d ∈ x.defs) : x.defs.find? (fun d' => d'.root = d.root) = some d := by
  obtain ⟨d',found⟩ : ∃ d', x.defs.find? (fun d' => d'.root = d.root) = some d' := by
    rw [← Option.isSome_iff_exists,List.find?_isSome]
    exact ⟨d,mem,decide_eq_true rfl⟩
  have same : d'.root = d.root := of_decide_eq_true (List.find?_some (p := fun d' : ViewDef => decide (d'.root = d.root)) found)
  rw [found,inj_on_of_nodup_map x.distinct (mem_of_find?_eq_some found) mem same]

theorem defCollide (mem : d ∈ x.defs) : x.collide d.root = d.collide := by
  rw [Setup.collide,Bool.eq_iff_iff,any_eq_true]
  constructor
  · rintro ⟨d',mem',both⟩
    rw [Bool.and_eq_true,decide_eq_true_eq] at both
    rw [← inj_on_of_nodup_map x.distinct mem' mem both.1]
    exact both.2
  · intro collides
    exact ⟨d,mem,by simp [collides]⟩

theorem orphanedPlain : x.collide rootByOrphaned = false := by
  rw [Setup.collide,any_eq_false]
  intro d mem both
  rw [Bool.and_eq_true,decide_eq_true_eq] at both
  exact x.reserved (mem_map.mpr ⟨d,mem,both.1⟩)

theorem orphanedUndeclared : declaredIn x rootByOrphaned m = false := by
  have missing : x.defs.find? (fun d => d.root = rootByOrphaned) = none := by
    rw [List.find?_eq_none]
    intro d mem same
    exact x.reserved (mem_map.mpr ⟨d,mem,of_decide_eq_true same⟩)
  rw [declaredIn,missing]
  rfl

theorem placementCases (placed : placement x m d = some p) :
    p.root = d.root ∧ p.declared = d.isDir m ∧ p.collide = d.collide ∨
      p = ⟨rootByOrphaned,ofString (byArtifactPath m.artifactID),false,false⟩ := by
  unfold placement at placed
  split at placed
  · cases placed
    exact .inl ⟨rfl,rfl,rfl⟩
  split at placed
  · cases placed
  split at placed
  · cases placed
    exact .inl ⟨rfl,rfl,rfl⟩
  · cases placed
    exact .inr rfl

theorem placementFlags (mem : p ∈ placements x m) : p.declared = declaredIn x p.root m ∧ p.collide = x.collide p.root := by
  obtain ⟨d,listed,placed⟩ := mem_filterMap.mp mem
  rcases placementCases placed with ⟨root,declared,collide⟩ | rfl
  · rw [root,declared,collide,declaredIn,defFound listed,defCollide listed]
    exact ⟨rfl,rfl⟩
  · exact ⟨orphanedUndeclared.symm,orphanedPlain.symm⟩

theorem placementsApart (x : Setup) (m : Manifest) :
    (placements x m).Pairwise fun p q => p.root = q.root → q = p ∧ p.collide = false ∧ p.declared = false := by
  have distinct : x.defs.Pairwise fun d d' => d.root ≠ d'.root := pairwise_map.mp x.distinct
  have here : ∀ {d : ViewDef}, d ∈ x.defs → d.root ≠ rootByOrphaned := fun mem same => x.reserved (mem_map.mpr ⟨_,mem,same⟩)
  refine pairwise_filterMap.mpr (List.Pairwise.imp_of_mem ?_ distinct)
  intro d d' mem mem' differ p placed p' placed' same
  rcases placementCases placed with ⟨root,_,_⟩ | rfl
  · rcases placementCases placed' with ⟨root',_,_⟩ | rfl
    · exact absurd (root.symm.trans (same.trans root')) differ
    · exact absurd (root.symm.trans same) (here mem)
  · rcases placementCases placed' with ⟨root',_,_⟩ | rfl
    · exact absurd (root'.symm.trans same.symm) (here mem')
    · exact ⟨rfl,rfl,rfl⟩

end

section
variable {κ σ π : Type} [DecidableEq κ] (key : π → κ) (g : σ → π → σ)
theorem foldUpdate (f : κ → σ) (steps : List π) (k : κ) :
    steps.foldl (fun f s => update f (key s) (g (f (key s)) s)) f k =
      (steps.filter fun s => key s = k).foldl g (f k) := by
  induction steps generalizing f with
  | nil => rfl
  | cons s rest ih =>
    rw [foldl_cons,ih]
    by_cases here : key s = k
    · rw [filter_cons_of_pos (by simpa using here),foldl_cons,← here,update_self]
    · rw [filter_cons_of_neg (by simpa using here),update_of_ne (Ne.symm here)]

end

variable {root}

section
variable {artifacts}
theorem placedAt (x : Setup) (m : Manifest) (root : String) :
    (placements x m).filter (fun p => p.root = root) = [] ∨
      ∃ p ∈ placements x m, p.root = root ∧ ∃ again, (placements x m).filter (fun p => p.root = root) = p::again ∧
        ∀ q ∈ again, q = p ∧ p.collide = false ∧ p.declared = false := by
  cases split : (placements x m).filter (fun p => p.root = root) with
  | nil => exact .inl rfl
  | cons p again =>
    have rooted : ∀ q ∈ p::again, q ∈ placements x m ∧ q.root = root := by
      intro q mem
      rw [← split,mem_filter,decide_eq_true_eq] at mem
      exact mem
    have apart := (placementsApart x m).filter fun p => decide (p.root = root)
    rw [split] at apart
    obtain ⟨listed,here⟩ := rooted p mem_cons_self
    refine .inr ⟨p,listed,here,again,rfl,fun q mem => ?_⟩
    exact (pairwise_cons.mp apart).1 q mem (here.trans (rooted q (mem_cons_of_mem p mem)).2.symm)

theorem recordPaths (x : Setup) (m : Manifest) (root : String) :
    (recordOf x m).paths root = (((placements x m).filter fun p => p.root = root).head?).map Placement.path := by
  have folded := foldUpdate Placement.root (fun _ p => some p.path) (fun _ => none) (placements x m) root
  refine Eq.trans folded ?_
  rcases placedAt x m root with none | ⟨p,_,_,again,split,same⟩
  · rw [none]
    rfl
  rw [split,foldl_cons,List.head?_cons,Option.map_some]
  have keep : ∀ q ∈ again, q.path = p.path := fun q mem => by rw [(same q mem).1]
  clear split same
  induction again with
  | nil => rfl
  | cons q rest ih =>
    rw [foldl_cons,keep q mem_cons_self]
    exact ih fun q mem => keep q (mem_cons_of_mem _ mem)

theorem claimsForget (id : String) : claims x (update artifacts id none) root = forgetting (claims x artifacts root) id := by
  funext other
  by_cases same : other = id
  · subst same
    simp [claims,forgetting]
  · simp [claims,forgetting,same]

theorem claimsPlaced {p} (mem : p ∈ placements x m) (here : p.root = root)
    (paths : (recordOf x m).paths root = some p.path) :
    claims x (update artifacts m.artifactID (some (recordOf x m))) root = claiming (claims x artifacts root) m p := by
  funext other
  by_cases same : other = m.artifactID
  · subst same
    rw [claiming,update_self,(placementFlags mem).1,here]
    simp only [claims,update_self,Option.bind_some,paths,Option.map_some]
    rfl
  · simp [claims,claiming,same]

theorem claimsSkipped (new : artifacts m.artifactID = none) (paths : (recordOf x m).paths root = none) :
    claims x (update artifacts m.artifactID (some (recordOf x m))) root = claims x artifacts root := by
  funext other
  by_cases same : other = m.artifactID
  · subst same
    simp [claims,paths,new]
  · simp [claims,same]

end

structure Tidy (x : Setup) (strict : Prop) (v : View) : Prop where
  records : ∀ id rec, v.artifacts id = some rec → rec = recordOf x rec.manifest ∧ rec.manifest.artifactID = id
  trees : ∀ root, Kept (x.collide root) strict x.createdAt (claims x v.artifacts root) (v.trees root)

/- A path that starts with a slash has no parent in the source's tree. -/
def Anchored (own : Claims) : Prop := ∀ id path e, own id = some (path,e) → path.getLast? ≠ some ""

def Separate (x : Setup) (v : View) : Prop :=
  ∀ root, Apart (x.collide root) (claims x v.artifacts root) ∧ Anchored (claims x v.artifacts root)
def Level (x : Setup) (v : View) : Prop := ∀ root, Flat (claims x v.artifacts root)

def ClearAt (x : Setup) (strict : Prop) (root : String) (v : View) : Prop :=
  Apart (x.collide root) (claims x v.artifacts root) ∧ (strict → Flat (claims x v.artifacts root))

structure SoundAt (x : Setup) (strict : Prop) (root : String) (v : View) : Prop where
  records : ∀ id rec, v.artifacts id = some rec → rec = recordOf x rec.manifest ∧ rec.manifest.artifactID = id
  kept : Kept (x.collide root) strict x.createdAt (claims x v.artifacts root) (v.trees root)
  clear : ClearAt x strict root v

variable {strict : Prop} {v c}

section
variable {id}
theorem claimsKnown (artifacts : String → Option Record) (root : String) : Knows artifacts (claims x artifacts root) := by
  intro id path e claim
  obtain ⟨rec,found,mapped⟩ := Option.bind_eq_some_iff.mp claim
  obtain ⟨_,_,same⟩ := Option.map_eq_some_iff.mp mapped
  cases same
  exact ⟨rec,found,rfl⟩

def Recorded (x : Setup) (v : View) : Prop :=
  ∀ id rec, v.artifacts id = some rec → rec = recordOf x rec.manifest ∧ rec.manifest.artifactID = id

theorem claimsNamed (records : Recorded x v) : Named (claims x v.artifacts root) := by
  intro id path e claim
  obtain ⟨rec,found,same⟩ := claimsKnown v.artifacts root id path e claim
  rw [← same]
  exact (records id rec found).2

theorem forgettingAbsent (absent : c id = none) : forgetting c id = c := by
  rw [forgetting,← absent,update_eq_self]

theorem emptyHolds (x : Setup) (root : String) : Holds (claims x (initTrees x).artifacts root) fun _ => none := by
  refine ⟨?_,?_,?_⟩
  · intro path e held
    cases held
  · intro path e id e' held
    cases held
  · intro id path e claim
    cases claim

theorem emptyElected (x : Setup) (root : String) :
    Elected (claims x (initTrees x).artifacts root) (fun _ => none) ((initTrees x).trees root) := by
  refine ⟨fun _ => rfl,fun _ => List.Pairwise.nil,fun path l => iff_of_false not_mem_nil ?_⟩
  rintro ⟨e,claim,_⟩
  cases claim

theorem soundAtEmpty (x : Setup) (strict : Prop) (root : String) : SoundAt x strict root (initTrees x) := by
  refine ⟨?_,⟨_,emptyHolds x root,bareFollows x.createdAt,fun _ => bareStamped x.createdAt,fun _ => emptyElected x root⟩,
    ⟨?_,?_,?_⟩,fun _ => ?_⟩
  · intro id rec found
    cases found
  · intro id path e claim
    cases claim
  · intro id id' path e e' claim
    cases claim
  · intro id id' path path' e e' claim
    cases claim
  · intro id id' path path' e e' claim
    cases claim

theorem apartForget {collide} (apart : Apart collide c) (id : String) : Apart collide (forgetting c id) := by
  refine ⟨fun other path e claim => apart.below other path e (forgettingIff.mp claim).2,
    fun one other path e e' claim claim' differ => ?_,fun one other path path' e e' claim claim' under differ => ?_⟩
  · exact apart.shared one other path e e' (forgettingIff.mp claim).2 (forgettingIff.mp claim').2 differ
  · exact apart.nested one other path path' e e' (forgettingIff.mp claim).2 (forgettingIff.mp claim').2 under differ

theorem flatForget (flat : Flat c) (id : String) : Flat (forgetting c id) := by
  intro one other path path' e e' claim claim' under
  exact flat one other path path' e e' (forgettingIff.mp claim).2 (forgettingIff.mp claim').2 under

theorem discardArtifacts (x : Setup) (v : View) (id : String) : (discard x v id).artifacts = update v.artifacts id none := by
  unfold discard
  split
  · next absent => rw [← absent,update_eq_self]
  · rfl

theorem removedAt {rec} (found : v.artifacts id = some rec)
    (below : ∀ path e, claims x v.artifacts root id = some (path,e) → path ≠ []) :
    claims x v.artifacts root id = none ∧ (removeArtifactFromTrees x v id rec).trees root = v.trees root ∨
      ∃ path e, claims x v.artifacts root id = some (path,e) ∧ (removeArtifactFromTrees x v id rec).trees root =
        if x.collide root then removeFromCollisionTree x.createdAt v.artifacts (v.trees root) id path
        else {v.trees root with nodes := removeFile (v.trees root).nodes path} := by
  have claim : claims x v.artifacts root id =
      (rec.paths root).map fun path => (path,⟨rec.manifest,declaredIn x root rec.manifest⟩) := by
    rw [claims,found]
    rfl
  simp only [removeArtifactFromTrees]
  split
  · next none =>
    rw [none] at claim
    exact .inl ⟨claim,rfl⟩
  · next root' =>
    rw [root'] at claim
    exact absurd rfl (below _ _ claim)
  · next path _ there =>
    rw [there] at claim
    exact .inr ⟨path,_,claim,rfl⟩

theorem removeKept {rec} (sound : SoundAt x strict root v) (found : v.artifacts id = some rec) :
    Kept (x.collide root) strict x.createdAt (forgetting (claims x v.artifacts root) id)
      ((removeArtifactFromTrees x v id rec).trees root) := by
  have kept := sound.kept
  obtain ⟨apart,flat⟩ := sound.clear
  rcases removedAt found (apart.below id) with ⟨none,same⟩ | ⟨path,e,claim,removed⟩
  · rw [forgettingAbsent none,same]
    exact kept
  rw [removed]
  split
  · next collides =>
    rw [collides] at kept ⊢
    exact sharedForgot kept (collides ▸ apart) flat (claimsKnown _ root) (claimsNamed sound.records) claim
  · next plain =>
    rw [Bool.not_eq_true] at plain
    rw [plain] at kept ⊢
    exact plainForgot kept (plain ▸ apart) flat claim

theorem recordedDiscard (records : Recorded x v) (id : String) : Recorded x (discard x v id) := by
  intro other rec found
  rw [discardArtifacts] at found
  have differ : other ≠ id := by
    rintro rfl
    simp at found
  rw [update_of_ne differ] at found
  exact records other rec found

theorem recordedIndex (records : Recorded x v) : Recorded x (indexArtifact x v m) := by
  intro id rec found
  by_cases same : id = m.artifactID
  · subst same
    simp only [indexArtifact,update_self] at found
    cases found
    exact ⟨rfl,rfl⟩
  · simp only [indexArtifact,update_of_ne same] at found
    exact records id rec found

theorem discardAt (sound : SoundAt x strict root v) (id : String) : SoundAt x strict root (discard x v id) := by
  have claims' : claims x (discard x v id).artifacts root = forgetting (claims x v.artifacts root) id := by
    rw [discardArtifacts,claimsForget]
  refine ⟨recordedDiscard sound.records id,?_,?_,fun s => ?_⟩
  · rw [claims']
    unfold discard
    split
    · next absent =>
      have none : claims x v.artifacts root id = none := by rw [claims,absent]; rfl
      rw [forgettingAbsent none]
      exact sound.kept
    · next rec found => exact removeKept sound found
  · rw [claims']
    exact apartForget sound.clear.1 id
  · rw [claims']
    exact flatForget (sound.clear.2 s) id

theorem placeAgain {b artifacts p}
    (kept : Kept p.collide strict x.createdAt (claiming c m p) b) (apart : Apart p.collide (claiming c m p))
    (flat : strict → Flat (claiming c m p)) (plain : p.collide = false ∧ p.declared = false) :
    Kept p.collide strict x.createdAt (claiming c m p) (b.place x artifacts m p) := by
  obtain ⟨own,holds,follows,stamped,elected⟩ := kept
  have claim : claiming c m p m.artifactID = some (p.path,⟨m,p.declared⟩) := claimingSelf
  -- The tree has no collisions, so the one claimant owns its path.
  have held : own p.path = some ⟨m,p.declared⟩ := by
    obtain ⟨e,owned⟩ := Option.ne_none_iff_exists'.mp (holds.covers _ _ _ claim)
    have again := holds.claimed _ _ owned
    by_cases same : e.manifest.artifactID = m.artifactID
    · rw [same,claim] at again
      cases again
      exact owned
    · have shared := (apart.shared _ _ _ _ _ again claim same).1
      rw [plain.1] at shared
      cases shared
  have same : update own p.path (some ⟨m,p.declared⟩) = own := by rw [← held,update_eq_self]
  have undeclared : ∀ e, own p.path = some e → e.declared = false ∧ p.declared = false := by
    intro e owned
    cases held.symm.trans owned
    exact ⟨plain.2,plain.2⟩
  have below := apart.below _ _ _ claim
  rw [Branch.place,if_neg (by simp [plain.1])]
  refine ⟨own,holds,?_,fun s => ?_,fun collides => ?_⟩
  · have above : AboveDeclared own p.path := by
      intro q e owned under differ
      exact (apart.nested _ _ _ _ _ _ (holds.claimed q e owned) claim under differ).2
    have nodes : Follows (update own p.path (some ⟨m,p.declared⟩))
        (insertArtifact x.createdAt b.nodes p.path m p.declared) :=
      insertFollows follows below (fun e owned => (undeclared e owned).1) above
    rwa [same] at nodes
  · have leaf : ¬ Inner own p.path := by
      rintro ⟨q,entry,under,differ⟩
      obtain ⟨e,owned⟩ := Option.ne_none_iff_exists'.mp entry
      exact differ (flat s _ _ _ _ _ _ claim (holds.claimed q e owned) under)
    have stamps := insertStamped (m := m) follows (stamped s) below leaf undeclared
    rwa [same] at stamps
  · rw [plain.1] at collides
    cases collides

theorem indexedAt (new : v.artifacts m.artifactID = none) :
    claims x (indexArtifact x v m).artifacts root = claims x v.artifacts root ∧
        (indexArtifact x v m).trees root = v.trees root ∨
      ∃ p ∈ placements x m, p.root = root ∧ ∃ again : List Placement,
        claims x (indexArtifact x v m).artifacts root = claiming (claims x v.artifacts root) m p ∧
        (indexArtifact x v m).trees root =
          again.foldl (fun b p => b.place x v.artifacts m p) ((v.trees root).place x v.artifacts m p) ∧
        ∀ q ∈ again, q = p ∧ p.collide = false ∧ p.declared = false := by
  have branch : (indexArtifact x v m).trees root =
      ((placements x m).filter fun p => p.root = root).foldl (fun b p => b.place x v.artifacts m p) (v.trees root) :=
    foldUpdate Placement.root (fun (b : Branch) p => b.place x v.artifacts m p) v.trees (placements x m) root
  have paths := recordPaths x m root
  rw [branch]
  rcases placedAt x m root with none | ⟨p,mem,here,again,split,same⟩
  · rw [none] at paths ⊢
    exact .inl ⟨claimsSkipped new paths,rfl⟩
  · rw [split] at paths ⊢
    exact .inr ⟨p,mem,here,again,claimsPlaced mem here paths,rfl,same⟩

theorem indexAt (sound : SoundAt x strict root v) (new : v.artifacts m.artifactID = none)
    (clear : ClearAt x strict root (indexArtifact x v m)) : SoundAt x strict root (indexArtifact x v m) := by
  refine ⟨recordedIndex sound.records,?_,clear⟩
  have kept := sound.kept
  obtain ⟨apart,flat⟩ := clear
  rcases indexedAt new with ⟨skipped,unchanged⟩ | ⟨p,mem,here,again,placed,branch,same⟩
  · rw [skipped,unchanged]
    exact kept
  rw [placed] at apart flat ⊢
  rw [branch]
  have collide : p.collide = x.collide root := by rw [(placementFlags mem).2,here]
  rw [← collide] at kept apart ⊢
  have absent : claims x v.artifacts root m.artifactID = none := by
    rw [claims,new]
    rfl
  have first := placeKept (x := x) kept (claimsKnown v.artifacts root) absent apart flat
  clear branch
  generalize (v.trees root).place x v.artifacts m p = b at first
  induction again generalizing b with
  | nil => exact first
  | cons q rest ih =>
    obtain ⟨rfl,plain⟩ := same q mem_cons_self
    exact ih (fun q mem => same q (mem_cons_of_mem _ mem)) _ (placeAgain first apart flat plain)

theorem populateId (src : Source) (m : Manifest) : (populateExt src m).artifactID = m.artifactID := by
  unfold populateExt
  split
  · rfl
  · split
    · rfl
    · rfl

end

inductive Op where
  | add (m : Manifest)
  | remove (id : String)
  | move (oldPath : Path) (m : Manifest)
  | applyDelta (src : Source) (changes : List Manifest)

def perform (x : Setup) (v : View) : Op → View
  | .add m => (add x v m).1
  | .remove id => (remove x v id).1
  | .move oldPath m => (move x v oldPath m).1
  | .applyDelta src changes => applyDelta x src v changes

def Leaves (x : Setup) (good : View → Prop) (v : View) : Op → Prop
  | .applyDelta src changes => Along (upsert x src) (fun v m => good (upsert x src v m)) v changes
  | op => good (perform x v op)

variable {good}

structure Keeps (x : Setup) (good clear : View → Prop) : Prop where
  discards : ∀ v id, good v → good (discard x v id)
  indexes : ∀ v m, good v → v.artifacts m.artifactID = none → clear (indexArtifact x v m) → good (indexArtifact x v m)

section
variable {clear}
theorem Keeps.enlist (k : Keeps x good clear) (held : good v) (ok : clear (enlist x v m)) : good (enlist x v m) := by
  unfold Projection.enlist at ok ⊢
  cases known : v.artifacts m.artifactID with
  | some rec => exact held
  | none =>
    rw [known] at ok
    exact k.indexes v m held known ok

theorem Keeps.upsert (k : Keeps x good clear) (src : Source) (held : good v) (ok : clear (upsert x src v m)) :
    good (upsert x src v m) := by
  have dropped := k.discards v m.artifactID held
  have absent : (discard x v m.artifactID).artifacts (populateExt src m).artifactID = none := by
    rw [populateId,discardArtifacts,update_self]
  unfold Projection.upsert at ok ⊢
  split
  · next passes =>
    rw [if_pos passes] at ok
    exact k.indexes _ _ dropped absent ok
  · exact dropped

theorem Keeps.displace (k : Keeps x good clear) (held : good v) (path : Path) : good (displace x v path) := by
  unfold Projection.displace
  split
  · exact held
  · next owner _ => exact k.discards v owner held

theorem Keeps.add (k : Keeps x good clear) (held : good v) (ok : clear (add x v m).1) : good (add x v m).1 := by
  unfold Projection.add at ok ⊢
  split
  · exact held
  next opened =>
  rw [if_neg opened] at ok
  split
  · exact held
  · next passes =>
    rw [if_neg passes] at ok
    exact k.enlist held ok

theorem Keeps.move (k : Keeps x good clear) {path} (held : good v) (ok : clear (move x v path m).1) :
    good (move x v path m).1 := by
  have displaced := k.displace held path
  unfold Projection.move at ok ⊢
  split
  · exact held
  next opened =>
  rw [if_neg opened] at ok
  split
  · exact displaced
  · next passes =>
    rw [if_neg passes] at ok
    exact k.enlist displaced ok

theorem Keeps.perform (k : Keeps x good clear) (held : good v) (op : Op) (ok : Leaves x clear v op) :
    good (perform x v op) := by
  cases op with
  | add m => exact k.add held ok
  | remove id =>
    change good (remove x v id).1
    unfold remove
    split
    · exact held
    · exact k.discards v id held
  | move oldPath m => exact k.move held ok
  | applyDelta src changes => exact invariantAfter (fun _ _ kept ok => k.upsert src kept ok) held ok

theorem Keeps.run (k : Keeps x good clear) {ops} (initial : good (initTrees x))
    (ok : Along (Projection.perform x) (Leaves x clear) (initTrees x) ops) :
    good (after (Projection.perform x) (initTrees x) ops) :=
  invariantAfter (fun _ op held ok => k.perform held op ok) initial ok

end

theorem soundKeeps (x : Setup) (strict : Prop) (root : String) : Keeps x (SoundAt x strict root) (ClearAt x strict root) :=
  ⟨fun _ id sound => discardAt sound id,fun _ _ sound new clear => indexAt sound new clear⟩

theorem runAt {ops} (good : Along (perform x) (Leaves x (ClearAt x strict root)) (initTrees x) ops) :
    SoundAt x strict root (after (perform x) (initTrees x) ops) :=
  (soundKeeps x strict root).run (soundAtEmpty x strict root) good

theorem tidyOf (sound : ∀ root, SoundAt x strict root v) : Tidy x strict v := ⟨(sound "").records,fun root => (sound root).kept⟩

section
variable {v'}
inductive Reached (t : Tree) : Path → Prop where
  | root : Reached t []
  | entry {dir : Path} {name : String} {pn node : Node} (above : Reached t dir) (there : t dir = some pn)
      (isDir : pn.fs.isDir = true) (listed : name ∈ pn.children) (child : t (name::dir) = some node) : Reached t (name::dir)

def Owns (c : Claims) (path : Path) (e : Entry) : Prop :=
  c e.manifest.artifactID = some (path,e) ∧
    ∀ id e', c id = some (path,e') → id ≠ e.manifest.artifactID → isFresherWinner e.manifest e'.manifest = true

structure WellFormed (c : Claims) (t : Tree) : Prop where
  parent : ∀ name dir node, t (name::dir) = some node →
    ∃ pn, t dir = some pn ∧ pn.fs.isDir = true ∧ pn.children.count name = 1
  child : ∀ dir pn name, t dir = some pn → name ∈ pn.children → ∃ node, t (name::dir) = some node
  carries : ∀ path node, t path = some node → node.artifact ≠ none ∨ node.children ≠ [] ∨ path = []
  kind : ∀ path node, t path = some node → (node.fs.isDir = true ↔
    node.children ≠ [] ∨ path = [] ∨ ∃ e, Owns c path e ∧ e.declared = true)
  reached : ∀ path e, Owns c path e → Reached t path ∧
    ∃ node, t path = some node ∧ node.artifact = some (artifactFacetFrom e.manifest)

variable {own path t} {strict' : Prop}

theorem ownsIff (holds : Holds c own) {e} : Owns c path e ↔ own path = some e := by
  constructor
  · rintro ⟨claim,best⟩
    obtain ⟨top,owned⟩ := Option.ne_none_iff_exists'.mp (holds.covers _ path e claim)
    by_cases same : e.manifest.artifactID = top.manifest.artifactID
    · have again := holds.claimed path top owned
      rw [← same,claim] at again
      cases again
      exact owned
    · have up := fresherIff.mp (best _ top (holds.claimed path top owned) (Ne.symm same))
      have down := holds.best path top _ e owned claim same
      exact absurd up (not_lt.mpr down.le)
  · intro owned
    refine ⟨holds.claimed path e owned,fun id e' claim differ => fresherIff.mpr (holds.best path e id e' owned claim differ)⟩

theorem followsReached (follows : Follows own t) (held : Occupied own path) : Reached t path := by
  induction path with
  | nil => exact .root
  | cons name dir ih =>
    obtain ⟨pn,there,fits⟩ := follows.node dir (occupiedParent held)
    obtain ⟨node,child,_⟩ := follows.node _ held
    exact .entry (ih (occupiedParent held)) there (fits.kind.mpr (.inr (.inl (innerIff.mpr ⟨name,held⟩))))
      ((fits.lists name).mpr held) child

theorem followsFormed (holds : Holds c own) (follows : Follows own t) : WellFormed c t := by
  refine ⟨fun name dir node there => ?_,fun dir pn name there listed => ?_,fun path node there => ?_,
    fun path node there => ?_,fun path e owns => ?_⟩
  · have held := (follows.found there).1
    obtain ⟨pn,above,fits⟩ := follows.node dir (occupiedParent held)
    have once : pn.children.Nodup := fits.sorted.imp fun before => before.ne
    refine ⟨pn,above,fits.kind.mpr (.inr (.inl (innerIff.mpr ⟨name,held⟩))),?_⟩
    exact count_eq_one_of_mem once ((fits.lists name).mpr held)
  · obtain ⟨node,child,_⟩ := follows.node _ (((follows.found there).2.lists name).mp listed)
    exact ⟨node,child⟩
  · obtain ⟨held,fits⟩ := follows.found there
    rcases occupiedIff.mp held with root | entry | inner
    · exact .inr (.inr root)
    · obtain ⟨e,owned⟩ := Option.ne_none_iff_exists'.mp entry
      refine .inl ?_
      rw [fits.artifact,facets,owned]
      exact Option.some_ne_none _
    · exact .inr (.inl (fits.parental.mpr (innerIff.mp inner)))
  · obtain ⟨held,fits⟩ := follows.found there
    rw [fits.kind,fits.parental,← innerIff,Directory]
    simp only [ownsIff holds]
    exact or_left_comm
  · have owned := (ownsIff holds).mp owns
    have held : Occupied own path := occupiedIff.mpr (.inr (.inl (owned ▸ Option.some_ne_none e)))
    obtain ⟨node,there,fits⟩ := follows.node path held
    refine ⟨followsReached follows held,node,there,?_⟩
    rw [fits.artifact,facets,owned]
    rfl

def SameArtifacts (v v' : View) : Prop := ∀ id, (v.artifacts id).map Record.manifest = (v'.artifacts id).map Record.manifest

section
variable (tidy : Tidy x strict v) (tidy' : Tidy x strict' v') (same : SameArtifacts v v')
include tidy tidy' same
theorem sameRecords : v.artifacts = v'.artifacts := by
  funext id
  have one := same id
  cases found : v.artifacts id with
  | none =>
    rw [found,Option.map_none] at one
    exact (Option.map_eq_none_iff.mp one.symm).symm
  | some rec =>
    rw [found,Option.map_some] at one
    obtain ⟨rec',found',manifest⟩ := Option.map_eq_some_iff.mp one.symm
    rw [found',(tidy.records id rec found).1,(tidy'.records id rec' found').1,manifest]

theorem sameShapes (root : String) (path : Path) :
    ((v.trees root).nodes path).map Node.shape = ((v'.trees root).nodes path).map Node.shape := by
  obtain ⟨own,holds,follows,_⟩ := tidy.trees root
  obtain ⟨own',holds',follows',_⟩ := tidy'.trees root
  rw [← sameRecords tidy tidy' same] at holds'
  cases holdsUnique holds holds'
  exact shapeUnique follows follows' path

end

theorem sameTrees (tidy : Tidy x True v) (tidy' : Tidy x True v') (same : SameArtifacts v v') (root : String) :
    (v.trees root).nodes = (v'.trees root).nodes := by
  obtain ⟨own,holds,follows,stamped,_⟩ := tidy.trees root
  obtain ⟨own',holds',follows',stamped',_⟩ := tidy'.trees root
  rw [← sameRecords tidy tidy' same] at holds'
  cases holdsUnique holds holds'
  exact treeUnique follows follows' (stamped trivial) (stamped' trivial)

end

section
variable {ms}
def Clear (x : Setup) (ms : List Manifest) : Prop :=
  ∀ m ∈ ms, ∀ p ∈ placements x m, p.path ≠ [] ∧ p.path.getLast? ≠ some "" ∧
    ∀ m' ∈ ms, m'.artifactID ≠ m.artifactID → ∀ q ∈ placements x m', q.root = p.root → ¬ p.path <:+ q.path
instance (x : Setup) (ms : List Manifest) : Decidable (Clear x ms) := by
  unfold Clear
  infer_instance

def Among (x : Setup) (ms : List Manifest) (v : View) : Prop :=
  ∀ id rec, v.artifacts id = some rec → rec.manifest ∈ ms ∧ rec = recordOf x rec.manifest ∧ rec.manifest.artifactID = id

theorem claimsPlacement {root id path e} (among : Among x ms v)
    (claim : claims x v.artifacts root id = some (path,e)) :
    e.manifest ∈ ms ∧ e.manifest.artifactID = id ∧ ∃ p ∈ placements x e.manifest, p.root = root ∧ p.path = path := by
  obtain ⟨rec,found,mapped⟩ := Option.bind_eq_some_iff.mp claim
  obtain ⟨_,there,same⟩ := Option.map_eq_some_iff.mp mapped
  cases same
  obtain ⟨mem,shape,name⟩ := among id rec found
  refine ⟨mem,name,?_⟩
  rw [shape,recordPaths] at there
  obtain ⟨p,first,rfl⟩ := Option.map_eq_some_iff.mp there
  have listed := mem_filter.mp (mem_of_head? first)
  exact ⟨p,listed.1,of_decide_eq_true listed.2,rfl⟩

theorem clearSeparate (clear : Clear x ms) (among : Among x ms v) : Separate x v ∧ Level x v := by
  have apart : ∀ {root id id' : String} {path path' : Path} {e e' : Entry}, claims x v.artifacts root id = some (path,e) →
      claims x v.artifacts root id' = some (path',e') → id ≠ id' → ¬ path <:+ path' := by
    intro root id id' path path' e e' claim claim' differ
    obtain ⟨mem,rfl,p,placed,here,rfl⟩ := claimsPlacement among claim
    obtain ⟨mem',rfl,q,placed',here',rfl⟩ := claimsPlacement among claim'
    exact (clear _ mem p placed).2.2 _ mem' differ.symm q placed' (here'.trans here.symm)
  have alone : ∀ {root id id' : String} {path path' : Path} {e e' : Entry}, claims x v.artifacts root id = some (path,e) →
      claims x v.artifacts root id' = some (path',e') → path <:+ path' → path = path' := by
    intro root id id' path path' e e' claim claim' under
    by_cases same : id = id'
    · rw [same,claim'] at claim
      cases claim
      rfl
    · exact absurd under (apart claim claim' same)
  refine ⟨fun root => ⟨⟨?_,?_,?_⟩,?_⟩,fun root => ?_⟩
  · intro id path e claim
    obtain ⟨mem,_,p,placed,_,rfl⟩ := claimsPlacement among claim
    exact (clear _ mem p placed).1
  · intro id id' path e e' claim claim' differ
    exact absurd (suffix_refl path) (apart claim claim' differ)
  · intro id id' path path' e e' claim claim' under differ
    exact absurd (alone claim claim' under) differ
  · intro id path e claim
    obtain ⟨mem,_,p,placed,_,rfl⟩ := claimsPlacement among claim
    exact (clear _ mem p placed).2.1
  · intro id id' path path' e e' claim claim' under
    exact alone claim claim' under

theorem amongAdd (among : Among x ms v) (mem : m ∈ ms) : Among x ms (add x v m).1 := by
  unfold add enlist
  split
  · exact among
  split
  · exact among
  split
  · exact among
  intro id rec found
  by_cases same : id = m.artifactID
  · subst same
    simp only [indexArtifact,update_self] at found
    cases found
    exact ⟨mem,rfl,rfl⟩
  · simp only [indexArtifact,update_of_ne same] at found
    exact among id rec found

theorem clearAdds (clear : Clear x ms) {added : List Manifest} (mem : ∀ m ∈ added, m ∈ ms) (among : Among x ms v) :
    Along (perform x) (Leaves x fun v => Separate x v ∧ Level x v) v (added.map Op.add) := by
  induction added generalizing v with
  | nil => intro visit mem; contradiction
  | cons m rest ih =>
    have next := amongAdd among (mem m mem_cons_self)
    exact alongCons.mpr ⟨clearSeparate clear next,ih (fun m' listed => mem m' (mem_cons_of_mem m listed)) next⟩

theorem addNew (opened : v.closed = false) (passes : passesFilter x m = true) (new : v.artifacts m.artifactID = none) :
    (add x v m).1 = indexArtifact x v m := by
  simp only [add,enlist,opened,passes,new,Bool.false_eq_true,if_false,Bool.not_true]

end

section
variable {better}
theorem leavesMono (weaker : ∀ v, good v → better v) (op : Op) (leaves : Leaves x good v op) : Leaves x better v op := by
  cases op with
  | add m => exact weaker _ leaves
  | remove id => exact weaker _ leaves
  | move oldPath m => exact weaker _ leaves
  | applyDelta src changes =>
    have along : Along (upsert x src) (fun v m => good (upsert x src v m)) v changes := leaves
    exact alongMono along fun _ _ => weaker _

theorem leavesAnd (op : Op) (leaves : Leaves x good v op) (leaves' : Leaves x better v op) :
    Leaves x (fun v => good v ∧ better v) v op := by
  cases op with
  | add m => exact ⟨leaves,leaves'⟩
  | remove id => exact ⟨leaves,leaves'⟩
  | move oldPath m => exact ⟨leaves,leaves'⟩
  | applyDelta src changes =>
    have along : Along (upsert x src) (fun v m => good (upsert x src v m)) v changes := leaves
    have along' : Along (upsert x src) (fun v m => better (upsert x src v m)) v changes := leaves'
    exact alongAnd.mpr ⟨along,along'⟩

end

/-- As long as no two artifacts stand in each other's way, every tree is well formed and runs that end with the same
artifacts have the same trees but for sizes and times, and those too if none was above another. -/
theorem treesFollowArtifacts (x : Setup) (ops ops' : List Op) (good : Along (perform x) (Leaves x (Separate x)) (initTrees x) ops)
    (good' : Along (perform x) (Leaves x (Separate x)) (initTrees x) ops') :
    (∀ root, WellFormed (claims x (after (perform x) (initTrees x) ops).artifacts root)
      ((after (perform x) (initTrees x) ops).trees root).nodes) ∧
    (SameArtifacts (after (perform x) (initTrees x) ops) (after (perform x) (initTrees x) ops') → ∀ root path,
      (((after (perform x) (initTrees x) ops).trees root).nodes path).map Node.shape =
        (((after (perform x) (initTrees x) ops').trees root).nodes path).map Node.shape) ∧
    (Along (perform x) (Leaves x (Level x)) (initTrees x) ops →
      Along (perform x) (Leaves x (Level x)) (initTrees x) ops' →
      SameArtifacts (after (perform x) (initTrees x) ops) (after (perform x) (initTrees x) ops') → ∀ root,
        ((after (perform x) (initTrees x) ops).trees root).nodes =
          ((after (perform x) (initTrees x) ops').trees root).nodes) := by
  have loose : ∀ {ops}, Along (perform x) (Leaves x (Separate x)) (initTrees x) ops →
      Tidy x False (after (perform x) (initTrees x) ops) := fun good =>
    tidyOf fun root => runAt (alongMono good fun _ op => leavesMono (fun _ apart => ⟨(apart root).1,False.elim⟩) op)
  have tight : ∀ {ops}, Along (perform x) (Leaves x (Separate x)) (initTrees x) ops →
      Along (perform x) (Leaves x (Level x)) (initTrees x) ops →
      Tidy x True (after (perform x) (initTrees x) ops) := fun good level =>
    tidyOf fun root => runAt (alongMono (alongAnd.mpr ⟨good,level⟩) fun _ op both =>
      leavesMono (fun _ both => ⟨(both.1 root).1,fun _ => both.2 root⟩) op (leavesAnd op both.1 both.2))
  refine ⟨fun root => ?_,?_,?_⟩
  · obtain ⟨own,holds,follows,_⟩ := (loose good).trees root
    exact followsFormed holds follows
  · exact sameShapes (loose good) (loose good')
  · intro level level' same
    exact sameTrees (tight good level) (tight good' level') same

def sampleFormats : Formats :=
  ⟨fun _ => "2026/11/15/12-00-00-",fun ext => if ext = [] then none else some (String.ofList (ext.map fun b => Char.ofNat b.toNat))⟩

def samplePaths : ViewDef := ⟨"by-path",fun m => sampleFormats.fsPath m.ext,true,true,fun _ => false⟩

def sampleSetup : Setup :=
  { formats := sampleFormats, provided := [samplePaths], rootView := "by-path", synthetic := false, filter := ⟨"",""⟩
    createdAt := some 5, distinct := by decide, reserved := by decide }

def sampleManifest (id path : String) : Manifest :=
  { artifactID := id, name := "", digest := id, identityNonce := [], sessionID := "", createdAt := some 1, contentHash := ""
    originalSize := 3, hashAlgo := "", blobRefs := [], handleRefs := [], layout := .inline, pipeline := [], inlineBlob := []
    retentionUntil := none, ext := path.toList.map fun c => c.toNat.toUInt8, usr := [] }

def sampleFile : Manifest := sampleManifest "sha-0001" "a"
def sampleChild : Manifest := sampleManifest "sha-0002" "a/b"
def sampleRun (ops : List Op) : View := after (perform sampleSetup) (initTrees sampleSetup) ops

theorem samplePasses (m : Manifest) : passesFilter sampleSetup m = true := rfl

theorem sampleAdd {v} (opened : v.closed = false) (new : v.artifacts m.artifactID = none) :
    (perform sampleSetup v (.add m)).artifacts = update v.artifacts m.artifactID (some (recordOf sampleSetup m)) ∧
      (perform sampleSetup v (.add m)).closed = false := by
  have added : perform sampleSetup v (.add m) = indexArtifact sampleSetup v m := addNew opened (samplePasses m) new
  rw [added]
  exact ⟨rfl,opened⟩

theorem sampleFirst (m : Manifest) : (sampleRun [.add m]).artifacts =
      update (fun _ => none) m.artifactID (some (recordOf sampleSetup m)) ∧ (sampleRun [.add m]).closed = false :=
  sampleAdd rfl rfl

theorem samplePair {m'} (differ : m'.artifactID ≠ m.artifactID) :
    (sampleRun [.add m,.add m']).artifacts =
      update (update (fun _ => none) m.artifactID (some (recordOf sampleSetup m))) m'.artifactID
        (some (recordOf sampleSetup m')) ∧ (sampleRun [.add m,.add m']).closed = false := by
  obtain ⟨first,opened⟩ := sampleFirst m
  have second := sampleAdd (v := sampleRun [.add m]) (m := m') opened (by rw [first,update_of_ne differ])
  rw [first] at second
  exact second

theorem fileAboveChild :
    ¬ WellFormed (claims sampleSetup (sampleRun [.add sampleFile,.add sampleChild]).artifacts "by-path")
      ((sampleRun [.add sampleFile,.add sampleChild]).trees "by-path").nodes ∧
    SameArtifacts (sampleRun [.add sampleFile]) (sampleRun [.add sampleChild,.add sampleFile,.remove "sha-0002"]) ∧
    (((sampleRun [.add sampleFile]).trees "by-path").nodes ["a"]).map (fun n => n.fs.isDir) = some false ∧
    (((sampleRun [.add sampleChild,.add sampleFile,.remove "sha-0002"]).trees "by-path").nodes ["a"]).map
      (fun n => n.fs.isDir) = some true := by
  refine ⟨fun formed => ?_,fun id => ?_,by decide +kernel,by decide +kernel⟩
  · have child : (((sampleRun [.add sampleFile,.add sampleChild]).trees "by-path").nodes ["b","a"]).isSome = true := by
      decide +kernel
    have file : (((sampleRun [.add sampleFile,.add sampleChild]).trees "by-path").nodes ["a"]).map (fun n => n.fs.isDir) =
        some false := by decide +kernel
    obtain ⟨node,there⟩ := Option.isSome_iff_exists.mp child
    obtain ⟨pn,above,isDir,_⟩ := formed.parent _ _ node there
    rw [above,Option.map_some,isDir] at file
    cases file
  · obtain ⟨both,opened⟩ := @samplePair sampleChild sampleFile (by decide)
    have removed : (sampleRun [.add sampleChild,.add sampleFile,.remove "sha-0002"]).artifacts =
        update (sampleRun [.add sampleChild,.add sampleFile]).artifacts "sha-0002" none := by
      change ((remove sampleSetup (sampleRun [.add sampleChild,.add sampleFile]) "sha-0002").1).artifacts = _
      rw [remove,if_neg (by rw [opened]; decide)]
      exact discardArtifacts _ _ _
    rw [removed,both,(sampleFirst sampleFile).1]
    by_cases second : id = "sha-0002"
    · subst second
      simp [sampleFile,sampleManifest]
    · rw [update_of_ne second]
      by_cases first : id = sampleFile.artifactID
      · rw [first,update_self,update_self]
      · have other : id ≠ sampleChild.artifactID := second
        rw [update_of_ne first,update_of_ne first,update_of_ne other]

def sampleOther : Manifest := sampleManifest "sha-0003" "c"

theorem sampleClear : Clear sampleSetup [sampleChild,sampleOther] := by decide +kernel

theorem clearEitherOrder :
    ((sampleRun [.add sampleChild,.add sampleOther]).trees "by-path").nodes =
      ((sampleRun [.add sampleOther,.add sampleChild]).trees "by-path").nodes := by
  have none : Among sampleSetup [sampleChild,sampleOther] (initTrees sampleSetup) := by
    intro id rec found
    cases found
  have one := clearAdds sampleClear (fun m mem => mem) none
  have other := @clearAdds _ _ _ sampleClear [sampleOther,sampleChild] (fun m mem => by simpa [or_comm] using mem) none
  have same : SameArtifacts (sampleRun [.add sampleChild,.add sampleOther]) (sampleRun [.add sampleOther,.add sampleChild]) := by
    intro id
    rw [(samplePair (by decide)).1,(samplePair (by decide)).1,update_comm (by decide)]
  exact (treesFollowArtifacts sampleSetup _ _ (alongMono one fun _ op => leavesMono (fun _ both => both.1) op)
    (alongMono other fun _ op => leavesMono (fun _ both => both.1) op)).2.2
    (alongMono one fun _ op => leavesMono (fun _ both => both.2) op)
    (alongMono other fun _ op => leavesMono (fun _ both => both.2) op) same "by-path"

end Scrinium.Projection
