import Scrinium.ViewRuns

/-! Who wins a path that several artifacts claim, whatever the order in which they arrive, leave and move. -/
namespace Scrinium.Projection
open List hiding after
open Domain Trace Function Option
open Pathx (Path ofString)
variable {born t path m declared}

section
variable {dir}
def facet (t : Tree) (path : Path) : Option ArtifactFacet := (t path).bind Node.artifact

theorem facetUpdate (t : Tree) (path : Path) (node : Option Node) :
    facet (update t path node) = update (facet t) path (node.bind Node.artifact) :=
  comp_update (fun n : Option Node => n.bind Node.artifact) t path node

theorem facetKept {old node} (there : t path = some old) (same : node.artifact = old.artifact) :
    facet (update t path (some node)) = facet t := by
  rw [facetUpdate,bind_some,same]
  refine update_eq_self_iff.mpr ?_
  rw [facet,there,bind_some]

theorem facetBlank (missing : facet t path = none) : update (facet t) path none = facet t :=
  update_eq_self_iff.mpr missing.symm

theorem facetMissing (missing : t path = none) : facet t path = none := by
  rw [facet,missing,bind_none]

theorem facetHang (name : String) (node : Node) :
    facet (hang t name dir node) = update (facet t) (name::dir) node.artifact := by
  cases parent : t dir with
  | none => rw [hangLoose parent,facetUpdate,bind_some]
  | some pn =>
    have above : update t (name::dir) (some node) dir = some pn := by
      rw [update_of_ne (Hierarchy.childApart : dir ≠ name::dir),parent]
    have kept : facet (update (update t (name::dir) (some node)) dir
        (some {pn with children := Hierarchy.insertSorted name pn.children})) =
        facet (update t (name::dir) (some node)) := facetKept above rfl
    rw [hangUnder parent,kept,facetUpdate,bind_some]

theorem facetEnsure (dir : Path) : facet (ensureDirs born t dir) = facet t := by
  induction dir with
  | nil => rfl
  | cons name dir ih =>
    cases there : ensureDirs born t dir (name::dir) with
    | some node => rw [ensureThere there,ih]
    | none => rw [ensureMissing there,facetHang,newDirNode,facetBlank (facetMissing there),ih]

theorem facetInsert (below : path ≠ []) :
    facet (insertArtifact born t path m declared) = update (facet t) path (some (artifactFacetFrom m)) := by
  obtain ⟨name,dir,rfl⟩ := exists_cons_of_ne_nil below
  cases there : ensureDirs born t dir (name::dir) with
  | some existing => rw [insertThere there,facetUpdate,facetEnsure,bind_some,attach]
  | none => rw [insertMissing there,facetHang,facetEnsure]

theorem facetRemove (t : Tree) (path : Path) : facet (removeFile t path) = update (facet t) path none := by
  induction path generalizing t with
  | nil => rw [removeFile,facetUpdate,bind_none]
  | cons name dir ih =>
    unfold removeFile
    cases present : t (name::dir) with
    | none => exact (facetBlank (facetMissing present)).symm
    | some _ =>
      have cleared := facetUpdate t (name::dir) none
      rw [bind_none] at cleared
      dsimp only
      cases parent : update t (name::dir) none dir with
      | none => exact cleared
      | some pn =>
        have kept : facet (update (update t (name::dir) none) dir
            (some {pn with children := pn.children.erase name})) = facet (update t (name::dir) none) :=
          facetKept parent rfl
        dsimp only
        split
        · next pruned =>
          have bare : facet (update t (name::dir) none) dir = none := by
            rw [facet,parent,bind_some,pruned.2.2]
          rw [ih,kept,facetBlank bare,cleared]
        · rw [kept,cleared]

theorem facetDrop (t : Tree) (path : Path) : facet (dropArtifact t path) = update (facet t) path none := by
  unfold dropArtifact detachArtifact
  cases t path with
  | none => exact facetRemove t path
  | some n =>
    dsimp only
    split
    · exact facetRemove t path
    · rw [getD_some,facetUpdate,bind_some]

end

def Carries (own : Path → Option Entry) (t : Tree) : Prop :=
  facet t = fun path => (own path).map fun e => artifactFacetFrom e.manifest

section
variable {own}
theorem carriesInsert (carries : Carries own t) (below : path ≠ []) (e : Entry) :
    Carries (update own path (some e)) (insertArtifact born t path e.manifest declared) := by
  rw [Carries,facetInsert below,carries]
  exact (comp_update (fun o : Option Entry => o.map fun e => artifactFacetFrom e.manifest) own path (some e)).symm

theorem carriesDrop (carries : Carries own t) (path : Path) : Carries (vacating own path) (dropArtifact t path) := by
  rw [Carries,facetDrop,carries]
  exact (comp_update (fun o : Option Entry => o.map fun e => artifactFacetFrom e.manifest) own path none).symm

end

def Addressed (x : Setup) : Prop := ∀ d ∈ x.defs, d.collide = true → ∀ m, d.path m ≠ some ""

variable {x v root}

theorem ofStringBelow {path} (named : path ≠ "") : ofString path ≠ [] := by
  rw [ofString,if_neg named,Ne,reverse_eq_nil_iff,Pathx.segments,map_eq_nil_iff]
  exact splitOn_ne_nil _ _

theorem syntheticNamed (m : Manifest) : syntheticPath m ≠ "" := by
  intro blank
  have letters := congrArg (fun s => s.toList.length) blank
  simp only [syntheticPath,String.toList_append,length_append] at letters
  exact absurd letters (by simp)

theorem placementBelow (addressed : Addressed x) {p} (mem : p ∈ placements x m) (collides : p.collide = true) :
    p.path ≠ [] := by
  obtain ⟨d,listed,placed⟩ := mem_filterMap.mp mem
  have apart := addressed d listed
  unfold placement at placed
  cases named : d.path m with
  | some path =>
    rw [named] at placed
    cases placed
    exact ofStringBelow fun blank => apart collides m (named.trans (congrArg some blank))
  | none =>
    rw [named] at placed
    dsimp only at placed
    split at placed
    · cases placed
    split at placed
    · cases placed
      exact ofStringBelow (syntheticNamed m)
    · cases placed
      cases collides

theorem claimsBelow (addressed : Addressed x) (collides : x.collide root = true) (records : Recorded x v) {id}
    {path e} (claim : claims x v.artifacts root id = some (path,e)) : path ≠ [] := by
  unfold claims at claim
  cases found : v.artifacts id with
  | none =>
    rw [found] at claim
    cases claim
  | some rec =>
    rw [found,(records id rec found).1] at claim
    obtain ⟨_,placed,same⟩ := map_eq_some_iff.mp claim
    cases same
    rw [recordPaths] at placed
    obtain ⟨p,first,rfl⟩ := map_eq_some_iff.mp placed
    obtain ⟨mem,here⟩ := mem_filter.mp (mem_of_head? first)
    rw [decide_eq_true_eq] at here
    exact placementBelow addressed mem (by rw [(placementFlags mem).2,here,collides])

structure Ranked (x : Setup) (root : String) (v : View) : Prop where
  records : Recorded x v
  books : ∃ own, Holds (claims x v.artifacts root) own ∧ Carries own (v.trees root).nodes ∧
    Elected (claims x v.artifacts root) own (v.trees root)

theorem rankedEmpty (x : Setup) (root : String) : Ranked x root (initTrees x) := by
  refine ⟨(soundAtEmpty x False root).records,_,emptyHolds x root,?_,emptyElected x root⟩
  exact (facetUpdate (fun _ => none) [] _).trans (facetBlank rfl)

section
variable (addressed : Addressed x) (collides : x.collide root = true)
include addressed collides
theorem rankedDiscard (ranked : Ranked x root v) (id : String) : Ranked x root (discard x v id) := by
  obtain ⟨records,own,holds,carries,books⟩ := ranked
  refine ⟨recordedDiscard records id,?_⟩
  unfold discard
  cases found : v.artifacts id with
  | none => exact ⟨own,holds,carries,books⟩
  | some rec =>
    change ∃ own', Holds (claims x (update v.artifacts id none) root) own' ∧ _ ∧
      Elected (claims x (update v.artifacts id none) root) own' _
    rw [claimsForget]
    rcases removedAt found (fun path e claim => claimsBelow addressed collides records claim) with
      ⟨none,same⟩ | ⟨path,e,claim,removed⟩
    · rw [forgettingAbsent none,same]
      exact ⟨own,holds,carries,books⟩
    · rw [removed,if_pos collides]
      have below := claimsBelow addressed collides records claim
      exact forgetShared holds books (claimsKnown _ root) (claimsNamed records) claim carries
        (fun _ => carriesDrop carries path) fun next _ _ _ => carriesInsert (carriesDrop carries path) below next

theorem rankedIndex (ranked : Ranked x root v)
    (new : v.artifacts m.artifactID = none) : Ranked x root (indexArtifact x v m) := by
  obtain ⟨records,own,holds,carries,books⟩ := ranked
  refine ⟨recordedIndex records,?_⟩
  rcases indexedAt new with ⟨skipped,unchanged⟩ | ⟨p,mem,here,again,placed,branch,same⟩
  · rw [skipped,unchanged]
    exact ⟨own,holds,carries,books⟩
  have shared : p.collide = true := by rw [(placementFlags mem).2,here,collides]
  have once : again = [] := eq_nil_iff_forall_not_mem.mpr fun q mem => by
    have plain := (same q mem).2.1
    rw [shared] at plain
    cases plain
  rw [placed,branch,once]
  have absent : claims x v.artifacts root m.artifactID = none := by
    rw [claims,new]
    rfl
  exact placeShared holds books (claimsKnown v.artifacts root) absent shared carries
    (carriesInsert carries (placementBelow addressed mem shared) ⟨m,p.declared⟩)

theorem rankedKeeps : Keeps x (Ranked x root) fun _ => True :=
  ⟨fun _ id ranked => rankedDiscard addressed collides ranked id,
    fun _ _ ranked new _ => rankedIndex addressed collides ranked new⟩

end

def Placed (v : View) (root : String) (path : Path) (id : String) (m : Manifest) : Prop :=
  ∃ rec, v.artifacts id = some rec ∧ rec.manifest = m ∧ rec.paths root = some path

structure WonBy (b : Branch) (path : Path) (placed : String → Manifest → Prop) (id : String) (m : Manifest) : Prop where
  claims : placed id m
  owner : b.owner path = some id
  greatest : ∀ other m', placed other m' → other ≠ id → rank (loserOf m') < rank (loserOf m)
  descending : (b.losers path).Pairwise fun l l' => rank l' < rank l
  losers : ∀ l, l ∈ b.losers path ↔ l.id ≠ id ∧ ∃ m', placed l.id m' ∧ l = loserOf m'
  node : ∃ n, b.nodes path = some n ∧ n.artifact = some (artifactFacetFrom m)

theorem placedClaims {id m} (placed : Placed v root path id m) :
    claims x v.artifacts root id = some (path,⟨m,declaredIn x root m⟩) := by
  obtain ⟨rec,found,rfl,there⟩ := placed
  rw [claims,found,bind_some,there,map_some]

theorem claimPlaced {id e} (claim : claims x v.artifacts root id = some (path,e)) :
    Placed v root path id e.manifest := by
  obtain ⟨rec,found,mapped⟩ := bind_eq_some_iff.mp claim
  obtain ⟨_,there,same⟩ := map_eq_some_iff.mp mapped
  cases same
  exact ⟨rec,found,rfl,there⟩

theorem rankedWon (ranked : Ranked x root v) {id m} (placed : Placed v root path id m) :
    ∃ id m, WonBy (v.trees root) path (Placed v root path) id m := by
  obtain ⟨records,own,holds,carries,books⟩ := ranked
  obtain ⟨e,held⟩ := ne_none_iff_exists'.mp (holds.covers id path _ (placedClaims placed))
  have claim := holds.claimed path e held
  refine ⟨e.manifest.artifactID,e.manifest,claimPlaced claim,?_,?_,books.sorted path,?_,?_⟩
  · rw [books.owner,held,map_some]
  · intro other m' there differ
    exact holds.best path e other _ held (placedClaims there) differ
  · intro l
    rw [books.losers]
    constructor
    · rintro ⟨e',waits,same,beaten⟩
      refine ⟨fun owner => beaten ?_,e'.manifest,claimPlaced waits,same⟩
      rw [owner,claim] at waits
      cases waits
      exact held
    · rintro ⟨differ,m',there,same⟩
      refine ⟨_,placedClaims there,same,fun owner => differ ?_⟩
      have owned := held.symm.trans owner
      cases owned
      exact (claimsNamed records l.id path _ (placedClaims there)).symm
  · have shown : facet (v.trees root).nodes path = some (artifactFacetFrom e.manifest) := by
      rw [carries]
      simp only [held,map_some]
    exact bind_eq_some_iff.mp shown

/-- After every run of a View the owner of a path in a tree with collisions is the freshest of those placed there, the
losers are the others in descending order, and the node carries the owner's facet. -/
theorem freshestOwns (x : Setup) (addressed : Addressed x) (ops : List Op) (root : String)
    (collides : x.collide root = true) (path : Path)
    (claimed : ∃ id m, Placed (after (perform x) (initTrees x) ops) root path id m) :
    ∃ id m, WonBy ((after (perform x) (initTrees x) ops).trees root) path
      (Placed (after (perform x) (initTrees x) ops) root path) id m := by
  have free : ∀ v op, Leaves x (fun _ => True) v op := by
    intro v op
    cases op with
    | applyDelta src changes => exact fun _ _ => trivial
    | _ => exact trivial
  obtain ⟨id,m,placed⟩ := claimed
  have along : Along (perform x) (Leaves x fun _ => True) (initTrees x) ops := fun visit _ => free visit.1 visit.2
  exact rankedWon ((rankedKeeps addressed collides).run (rankedEmpty x root) along) placed

theorem sampleAddressed : Addressed sampleSetup := by
  intro d mem collides m blank
  have only : d = samplePaths := by
    simp only [Setup.defs,sampleSetup,intrinsicDefs,cons_append,nil_append,mem_cons,
      not_mem_nil,or_false] at mem
    rcases mem with rfl | rfl | rfl | rfl
    · cases collides
    · cases collides
    · cases collides
    · rfl
  rw [only] at blank
  change (if m.ext = [] then none else some (String.ofList _)) = some "" at blank
  split at blank
  · cases blank
  · next ext => exact ext (map_eq_nil_iff.mp (String.ofList_injective (some.inj blank)))

def sampleNewer : Manifest := {sampleManifest "sha-0000" "a" with createdAt := some 2}
def sampleRivals : List Op := [.add sampleFile,.add (sampleManifest "sha-0003" "a"),.add sampleNewer,.remove "sha-0003"]

theorem newerOwns :
    (∃ id m, Placed (sampleRun sampleRivals) "by-path" ["a"] id m) ∧
      ∃ id m, WonBy ((sampleRun sampleRivals).trees "by-path") ["a"] (Placed (sampleRun sampleRivals) "by-path" ["a"]) id m := by
  have there : ∃ id m, Placed (sampleRun sampleRivals) "by-path" ["a"] id m := by
    refine ⟨"sha-0000",sampleNewer,_,rfl,rfl,?_⟩
    decide +kernel
  exact ⟨there,freshestOwns sampleSetup sampleAddressed sampleRivals "by-path" (by decide) ["a"] there⟩

end Scrinium.Projection
