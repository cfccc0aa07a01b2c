import Scrinium.ViewRuns

/-! What a Move leaves at the path it clears and at the path it fills, in a tree with collisions. -/
namespace Scrinium.Projection
open List hiding after
open Domain Hierarchy Function Option
open Pathx (Path)

def ShownAt (b : Branch) (path : Path) (id : String) : Prop :=
  ∃ n a, b.nodes path = some n ∧ n.fs.isDir = false ∧ n.artifact = some a ∧ a.artifactID = id

def nextAt (b : Branch) (path : Path) (known : Bool) (bid : Loser) : Option String :=
  match (b.losers path).head? with
  | none => if known then none else some bid.id
  | some l => if known then some l.id else if rank l < rank bid then some bid.id else some l.id

theorem discardClosed (x : Setup) (v : View) (id : String) : (discard x v id).closed = v.closed := by
  unfold discard
  split <;> rfl

theorem displaceClosed (x : Setup) (v : View) (path : Path) : (displace x v path).closed = v.closed := by
  unfold displace
  split
  · rfl
  · exact discardClosed ..

theorem enlistClosed (x : Setup) (v : View) (m : Manifest) : (enlist x v m).closed = v.closed := by
  unfold enlist
  split <;> rfl

section
variable {born t path q m declared}

variable {name dir node}

theorem hangAway (away : ¬ q <:+ name::dir) : hang t name dir node q = t q := by
  have top : q ≠ name::dir := fun same => away (same ▸ suffix_refl _)
  have under : q ≠ dir := fun same => away (same ▸ suffix_cons name dir)
  cases parent : t dir with
  | none => rw [hangLoose parent,update_of_ne top]
  | some pn => rw [hangUnder parent,update_of_ne under,update_of_ne top]

theorem hangTop : hang t name dir node (name::dir) = some node := by
  have apart : name::dir ≠ dir := fun same => childApart same.symm
  cases parent : t dir with
  | none => rw [hangLoose parent,update_self]
  | some pn => rw [hangUnder parent,update_of_ne apart,update_self]

theorem ensureAway (away : ¬ q <:+ path) : ensureDirs born t path q = t q := by
  induction path with
  | nil => rfl
  | cons name dir ih =>
    have above : ¬ q <:+ dir := fun under => away (under.trans (suffix_cons name dir))
    cases present : ensureDirs born t dir (name::dir) with
    | some node => rw [ensureThere present,ih above]
    | none => rw [ensureMissing present,hangAway away,ih above]

theorem insertAway (below : path ≠ []) (away : ¬ q <:+ path) : insertArtifact born t path m declared q = t q := by
  obtain ⟨name,dir,rfl⟩ := exists_cons_of_ne_nil below
  have above : ¬ q <:+ dir := fun under => away (under.trans (suffix_cons name dir))
  cases present : ensureDirs born t dir (name::dir) with
  | some existing =>
    have top : q ≠ name::dir := fun same => away (same ▸ suffix_refl _)
    rw [insertThere present,update_of_ne top,ensureAway above]
  | none => rw [insertMissing present,hangAway away,ensureAway above]

theorem insertPlain (below : path ≠ []) (leaf : ∀ n, t path = some n → n.fs.isDir = false ∧ n.children = []) :
    ∃ n, insertArtifact born t path m false path = some n ∧ n.fs.isDir = false ∧ n.artifact = some (artifactFacetFrom m) := by
  obtain ⟨name,dir,rfl⟩ := exists_cons_of_ne_nil below
  have same : ensureDirs born t dir (name::dir) = t (name::dir) := ensureAway childNotAbove
  cases present : t (name::dir) with
  | some existing =>
    obtain ⟨file,childless⟩ := leaf existing present
    rw [insertThere (same.trans present),update_self]
    exact ⟨_,rfl,by simp [attach,file,childless],rfl⟩
  | none =>
    rw [insertMissing (same.trans present),hangTop]
    exact ⟨_,rfl,rfl,rfl⟩

theorem ensureFilled (below : dir ≠ []) (under : dir <:+ path) : ensureDirs born t path dir ≠ none := by
  induction path with
  | nil => exact absurd (suffix_nil.mp under) below
  | cons name rest ih =>
    cases present : ensureDirs born t rest (name::rest) with
    | some node =>
      rw [ensureThere present]
      rcases suffix_cons_iff.mp under with rfl | above
      · rw [present]
        exact some_ne_none _
      · exact ih above
    | none =>
      rw [ensureMissing present]
      rcases suffix_cons_iff.mp under with rfl | above
      · rw [hangTop]
        exact some_ne_none _
      · exact hangKeeps (ih above)

theorem insertAbove (below : dir ≠ []) (under : dir <:+ path) (differ : dir ≠ path) :
    insertArtifact born t path m declared dir ≠ none := by
  have filled : path ≠ [] := by
    rintro rfl
    exact below (suffix_nil.mp under)
  obtain ⟨name,rest,rfl⟩ := exists_cons_of_ne_nil filled
  have above : dir <:+ rest := (suffix_cons_iff.mp under).resolve_left differ
  cases present : ensureDirs born t rest (name::rest) with
  | some existing =>
    rw [insertThere present,update_of_ne differ]
    exact ensureFilled below above
  | none =>
    rw [insertMissing present]
    exact hangKeeps (ensureFilled below above)

end

section
variable {x v root p q id m}

section
variable (sound : SoundAt x False root v) (collides : x.collide root = true) (shown : ShownAt (v.trees root) p id)
include sound collides shown
theorem fileOwner :
    ∃ own e, Holds (claims x v.artifacts root) own ∧ Follows own (v.trees root).nodes ∧
      Elected (claims x v.artifacts root) own (v.trees root) ∧ own p = some e ∧ e.manifest.artifactID = id ∧
      e.declared = false ∧ p ≠ [] ∧ ¬ Inner own p := by
  obtain ⟨own,holds,follows,_,elected⟩ := sound.kept
  obtain ⟨n,a,there,file,artifact,rfl⟩ := shown
  have fits := (follows.found there).2
  have plain : ¬ Directory own p := by
    rw [← fits.kind,file]
    exact Bool.false_ne_true
  obtain ⟨e,held,facet⟩ := map_eq_some_iff.mp (fits.artifact.symm.trans artifact)
  refine ⟨own,e,holds,follows,elected collides,held,congrArg ArtifactFacet.artifactID facet,?_,
    fun root => plain (.inl root),fun inner => plain (.inr (.inl inner))⟩
  rw [← Bool.not_eq_true]
  exact fun declared => plain (.inr (.inr ⟨e,held,declared⟩))

theorem heirAt {own'} (holds' : Holds (forgetting (claims x v.artifacts root) id) own') :
    ((v.trees root).losers p).head? = (own' p).map fun e => loserOf e.manifest := by
  obtain ⟨own,e,holds,_,elected,held,rfl,_⟩ := fileOwner sound collides shown
  have claim := holds.claimed p e held
  have mem : ∀ e', own' p = some e' → loserOf e'.manifest ∈ (v.trees root).losers p := by
    intro e' heir
    obtain ⟨differ,claim'⟩ := forgettingIff.mp (holds'.claimed p e' heir)
    refine (elected.losers p _).mpr ⟨e',claim',rfl,fun same => differ ?_⟩
    rw [held] at same
    exact congrArg (fun e : Entry => e.manifest.artifactID) (some.inj same).symm
  have filed : ∀ l ∈ (v.trees root).losers p, ∃ e', forgetting (claims x v.artifacts root) e.manifest.artifactID l.id = some (p,e') ∧
      l = loserOf e'.manifest := by
    intro l listed
    obtain ⟨e',claim',rfl,other⟩ := (elected.losers p l).mp listed
    refine ⟨e',forgettingIff.mpr ⟨fun same => other ?_,claim'⟩,rfl⟩
    rw [same,claim] at claim'
    cases claim'
    exact held
  cases listed : (v.trees root).losers p with
  | nil =>
    cases heir : own' p with
    | none => rfl
    | some e' =>
      have member := mem e' heir
      rw [listed] at member
      cases member
  | cons l rest =>
    obtain ⟨e1,claim1,same⟩ := filed l (by rw [listed]; exact mem_cons_self)
    obtain ⟨e',heir⟩ := ne_none_iff_exists'.mp (holds'.covers _ _ _ claim1)
    rw [heir,List.head?_cons,map_some]
    -- the heir is among the losers, of which the first has the greatest rank
    by_cases self : l.id = e'.manifest.artifactID
    · have again := holds'.claimed p e' heir
      rw [← self,claim1] at again
      cases again
      rw [same]
    · have less := holds'.best p e' _ e1 heir claim1 self
      have member := mem e' heir
      rw [listed] at member
      rcases mem_cons.mp member with top | later
      · exact absurd (congrArg Loser.id top).symm self
      have sorted := elected.sorted p
      rw [listed] at sorted
      have more := (pairwise_cons.mp sorted).1 _ later
      rw [same] at more
      exact absurd more (not_lt.mpr less.le)

structure Cleared (x : Setup) (root : String) (v v' : View) (p : Path) (own' : Path → Option Entry) : Prop where
  holds : Holds (claims x v'.artifacts root) own'
  follows : Follows own' (v'.trees root).nodes
  elected : Elected (claims x v'.artifacts root) own' (v'.trees root)
  heir : ((v.trees root).losers p).head? = (own' p).map fun e => loserOf e.manifest
  leaf : ¬ Inner own' p
  plain : ∀ e, own' p = some e → e.declared = false
  fewer : ∀ q, Occupied own' q → (v.trees root).nodes q ≠ none
  below : p ≠ []

theorem cleared : ∃ own', Cleared x root v (discard x v id) p own' := by
  obtain ⟨own',holds',follows',_,elected'⟩ := (discardAt sound id).kept
  have forgotten : claims x (discard x v id).artifacts root = forgetting (claims x v.artifacts root) id := by
    rw [discardArtifacts,claimsForget]
  have heir := heirAt sound collides shown (forgotten ▸ holds')
  obtain ⟨own,e,holds,follows,_,held,rfl,_,below,leaf⟩ := fileOwner sound collides shown
  have before : ∀ q, own' q ≠ none → own q ≠ none := by
    intro q entry
    obtain ⟨e',found⟩ := ne_none_iff_exists'.mp entry
    have claim := holds'.claimed q e' found
    rw [forgotten] at claim
    exact holds.covers _ _ _ (forgettingIff.mp claim).2
  refine ⟨own',holds',follows',elected' collides,heir,?_,?_,?_,below⟩
  · rintro ⟨q,entry,under,differ⟩
    exact leaf ⟨q,before q entry,under,differ⟩
  · intro e' found
    have claim := holds'.claimed p e' found
    rw [forgotten] at claim
    obtain ⟨differ,claim⟩ := forgettingIff.mp claim
    exact (sound.clear.1.shared _ _ _ _ _ claim (holds.claimed p e held) differ).2
  · intro q occupied
    have still : Occupied own q := occupied.imp id fun ⟨leaf,entry,under⟩ => ⟨leaf,before leaf entry,under⟩
    obtain ⟨n,there,_⟩ := follows.node q still
    rw [there]
    exact some_ne_none n

end

variable {v' own'}

section
variable (c : Cleared x root v v' p own')
include c
theorem clearedVacant : (v'.trees root).nodes p = none ↔ (v.trees root).losers p = [] := by
  rw [← List.head?_eq_none_iff,c.heir,map_eq_none_iff]
  constructor
  · intro vacant
    by_contra entry
    obtain ⟨n,there,_⟩ := c.follows.node p (occupiedIff.mpr (.inr (.inl entry)))
    rw [vacant] at there
    cases there
  · intro none
    refine c.follows.absent p fun occupied => ?_
    rcases occupiedIff.mp occupied with root | entry | inner
    · exact c.below root
    · exact entry none
    · exact c.leaf inner

theorem clearedLeaf {n} (there : (v'.trees root).nodes p = some n) :
    n.fs.isDir = false ∧ n.children = [] ∧ ∃ e, own' p = some e ∧ n.artifact = some (artifactFacetFrom e.manifest) := by
  obtain ⟨occupied,fits⟩ := c.follows.found there
  obtain ⟨e,entry⟩ := ne_none_iff_exists'.mp (((occupiedIff.mp occupied).resolve_left c.below).resolve_right c.leaf)
  refine ⟨?_,?_,e,entry,?_⟩
  · rw [← Bool.not_eq_true,fits.kind]
    rintro (root | inner | ⟨e',found,declared⟩)
    · exact c.below root
    · exact c.leaf inner
    · rw [c.plain e' found] at declared
      cases declared
  · by_contra children
    exact c.leaf (innerIff.mpr (fits.parental.mp children))
  · rw [fits.artifact,facets,entry]
    rfl

variable {other}

theorem clearedShows :
    ShownAt (v'.trees root) p other ↔ (((v.trees root).losers p).head?).map Loser.id = some other := by
  rw [c.heir,Option.map_map]
  constructor
  · rintro ⟨n,a,there,_,artifact,rfl⟩
    obtain ⟨_,_,e,entry,carried⟩ := clearedLeaf c there
    cases carried.symm.trans artifact
    rw [entry]
    rfl
  · intro mapped
    obtain ⟨e,entry,rfl⟩ := Option.map_eq_some_iff.mp mapped
    obtain ⟨n,there,_⟩ := c.follows.node p (occupiedIff.mpr (.inr (.inl (entry ▸ Option.some_ne_none e))))
    obtain ⟨file,_,e',entry',carried⟩ := clearedLeaf c there
    cases entry.symm.trans entry'
    exact ⟨n,_,there,file,carried,rfl⟩

end

def PlacedAt (x : Setup) (root : String) (m : Manifest) (q : Path) : Prop :=
  (placements x m).filter (fun p => p.root = root) = [⟨root,q,false,true⟩]

variable (c : Cleared x root v v' p own')
include c

theorem enlistNodes (new : v'.artifacts m.artifactID = none) (placed : PlacedAt x root m q) :
    ((enlist x v' m).trees root).nodes =
      if ∀ e, own' q = some e → rank (loserOf e.manifest) < rank (loserOf m) then
        insertArtifact x.createdAt (v'.trees root).nodes q m false
      else (v'.trees root).nodes := by
  have branch : (enlist x v' m).trees root = applyCollisionInsert x.createdAt v'.artifacts (v'.trees root) q m false := by
    simp only [enlist,new]
    refine (foldUpdate Placement.root (fun (b : Branch) p => b.place x v'.artifacts m p) v'.trees (placements x m) root).trans ?_
    rw [placed]
    rfl
  rw [branch,applyCollisionInsert,c.elected.owner]
  cases held : own' q with
  | none => simp
  | some e =>
    obtain ⟨rec,found,same⟩ := claimsKnown v'.artifacts root _ _ _ (c.holds.claimed q e held)
    rw [map_some,bind_some,found]
    simp only [some.injEq,forall_eq']
    by_cases fresher : rank (loserOf e.manifest) < rank (loserOf m)
    · rw [if_pos fresher,if_pos (fresherIff.mpr (same ▸ fresher))]
    · rw [if_neg fresher,if_neg fun wins => fresher (same ▸ fresherIff.mp wins)]

theorem replacedShows (placed : PlacedAt x root m p) :
    ShownAt ((enlist x v' m).trees root) p other ↔
      nextAt (v.trees root) p (v'.artifacts m.artifactID).isSome (loserOf m) = some other := by
  cases known : v'.artifacts m.artifactID with
  | some rec =>
    have same : enlist x v' m = v' := by simp only [enlist,known]
    rw [same,clearedShows c,nextAt]
    cases (v.trees root).losers p with
    | nil => simp
    | cons l rest => simp
  | none =>
    have plain : ∃ n, insertArtifact x.createdAt (v'.trees root).nodes p m false p = some n ∧ n.fs.isDir = false ∧
        n.artifact = some (artifactFacetFrom m) :=
      insertPlain c.below fun n there => ⟨(clearedLeaf c there).1,(clearedLeaf c there).2.1⟩
    obtain ⟨n,there,file,carries⟩ := plain
    have won : ∀ {nodes : Tree}, nodes = insertArtifact x.createdAt (v'.trees root).nodes p m false →
        ((∃ n a, nodes p = some n ∧ n.fs.isDir = false ∧ n.artifact = some a ∧ a.artifactID = other) ↔
          some m.artifactID = some other) := by
      rintro nodes rfl
      constructor
      · rintro ⟨n',a,there',_,artifact,rfl⟩
        cases there.symm.trans there'
        cases carries.symm.trans artifact
        rfl
      · intro same
        exact ⟨n,_,there,file,carries,some.inj same⟩
    have nodes := enlistNodes c known placed
    have heir := c.heir
    unfold nextAt
    cases held : own' p with
    | none =>
      rw [held,map_none] at heir
      rw [heir]
      simp only [held,reduceCtorEq,false_implies,implies_true,if_true] at nodes
      exact won nodes
    | some e =>
      rw [held,map_some] at heir
      rw [heir]
      simp only [held,some.injEq,forall_eq'] at nodes
      simp only [isSome_none,Bool.false_eq_true,if_false]
      by_cases fresher : rank (loserOf e.manifest) < rank (loserOf m)
      · rw [if_pos fresher] at nodes ⊢
        exact won nodes
      rw [if_neg fresher] at nodes ⊢
      have shows : ShownAt (v'.trees root) p other ↔ (((v.trees root).losers p).head?).map Loser.id = some other := clearedShows c
      rw [heir] at shows
      unfold ShownAt at shows ⊢
      rw [nodes]
      exact shows

/-- A manifest brought to a free path is shown there and leaves the old path empty, exactly when the View did not know
it, no other artifact was filed at the old path, and the new path is not below it. -/
theorem movedShows (free : (v.trees root).nodes q = none) (differ : q ≠ p) (placed : PlacedAt x root m q) :
    ShownAt ((enlist x v' m).trees root) q m.artifactID ∧ ((enlist x v' m).trees root).nodes p = none ↔
      v'.artifacts m.artifactID = none ∧ (v.trees root).losers p = [] ∧ ¬ p <:+ q := by
  have vacant : ¬ Occupied own' q := fun occupied => c.fewer q occupied free
  have absent : (v'.trees root).nodes q = none := c.follows.absent q vacant
  have below : q ≠ [] := fun root => vacant (.inl root)
  have unclaimed : own' q = none := by
    by_contra entry
    exact vacant (occupiedIff.mpr (.inr (.inl entry)))
  rw [← clearedVacant c]
  cases known : v'.artifacts m.artifactID with
  | some rec =>
    have same : enlist x v' m = v' := by simp only [enlist,known]
    rw [same]
    refine iff_of_false ?_ (by simp)
    rintro ⟨⟨n,a,there,_⟩,_⟩
    rw [absent] at there
    cases there
  | none =>
    have nodes := enlistNodes c known placed
    simp only [unclaimed,reduceCtorEq,false_implies,implies_true,if_true] at nodes
    have leaf : ∀ n, (v'.trees root).nodes q = some n → n.fs.isDir = false ∧ n.children = [] := by
      intro n there
      rw [absent] at there
      cases there
    have plain : ∃ n, insertArtifact x.createdAt (v'.trees root).nodes q m false q = some n ∧ n.fs.isDir = false ∧
        n.artifact = some (artifactFacetFrom m) := insertPlain below leaf
    obtain ⟨n,there,file,carries⟩ := plain
    have shown : ShownAt ((enlist x v' m).trees root) q m.artifactID := ⟨n,_,by rw [nodes]; exact there,file,carries,rfl⟩
    rw [and_iff_right shown,and_iff_right rfl,nodes]
    constructor
    · intro empty
      have away : ¬ p <:+ q := fun under => insertAbove c.below under (Ne.symm differ) empty
      rw [insertAway below away] at empty
      exact ⟨empty,away⟩
    · rintro ⟨empty,away⟩
      rw [insertAway below away]
      exact empty

end

end Scrinium.Projection
