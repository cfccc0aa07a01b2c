import Scrinium.View

/-! What one tree of a View has to be, given which artifact claims which path in it. -/
namespace Scrinium.Projection
open Domain Hierarchy Function List Option
open Pathx (Path)

abbrev Claims := String → Option (Path × Entry)

section

def moment : Option Instant → Nat
  | none => 0
  | some t => t + 1

def rank (l : Loser) : Nat ×ₗ String := toLex (moment l.createdAt,l.id)

theorem laterIff (a b : Option Instant) : later a b = true ↔ moment b < moment a := by
  cases a <;> cases b <;> simp [later,moment]

theorem momentInjective {a b} : moment a = moment b ↔ a = b := by
  cases a <;> cases b <;> simp [moment]

theorem rankLt {l l'} :
    rank l < rank l' ↔ moment l.createdAt < moment l'.createdAt ∨ l.createdAt = l'.createdAt ∧ l.id < l'.id := by
  rw [rank,rank,Prod.Lex.toLex_lt_toLex,momentInjective]

theorem fresherIff {candidate incumbent} :
    isFresherWinner candidate incumbent = true ↔ rank (loserOf incumbent) < rank (loserOf candidate) := by
  rw [isFresherWinner,rankLt,Bool.or_eq_true,laterIff,Bool.and_eq_true,decide_eq_true_eq,decide_eq_true_eq,
    eq_comm (a := candidate.createdAt)]
  rfl

theorem yieldsIff {l entry} : yields l entry = true ↔ rank l ≤ rank entry := by
  rw [← not_lt,rankLt,yields]
  split
  · next after =>
    rw [laterIff] at after
    simp [after]
  · next before =>
    rw [laterIff] at before
    split
    · next same => rw [decide_eq_true_eq,same,or_iff_right (lt_irrefl _),and_iff_right rfl,not_lt]
    · next differ => simp [before,Ne.symm differ]

theorem rankOwner {m m'} (differ : m.artifactID ≠ m'.artifactID) : rank (loserOf m) ≠ rank (loserOf m') := by
  intro same
  exact differ (congrArg (fun r => (ofLex r).2) same)

variable {entry l losers}

theorem memPush : l ∈ pushLoser entry losers ↔ l = entry ∨ l ∈ losers := by
  induction losers with
  | nil => simp [pushLoser]
  | cons first rest ih =>
    unfold pushLoser
    split
    · simp
    · rw [mem_cons,ih,mem_cons]
      tauto

theorem sortedPush (sorted : losers.Pairwise fun l l' => rank l' < rank l) (new : ∀ l ∈ losers, rank l ≠ rank entry) :
    (pushLoser entry losers).Pairwise fun l l' => rank l' < rank l := by
  induction losers with
  | nil => exact pairwise_singleton _ _
  | cons first rest ih =>
    obtain ⟨top,tail⟩ := pairwise_cons.mp sorted
    unfold pushLoser
    split
    · next older =>
      have before : rank first < rank entry := lt_of_le_of_ne (yieldsIff.mp older) (new first mem_cons_self)
      refine pairwise_cons.mpr ⟨fun other mem => ?_,sorted⟩
      rcases mem_cons.mp mem with rfl | later
      · exact before
      · exact (top other later).trans before
    · next younger =>
      rw [yieldsIff,not_le] at younger
      refine pairwise_cons.mpr ⟨fun other mem => ?_,ih tail fun l mem => new l (mem_cons_of_mem first mem)⟩
      rcases memPush.mp mem with rfl | later
      · exact younger
      · exact top other later

end

structure Holds (c : Claims) (own : Path → Option Entry) : Prop where
  claimed : ∀ path e, own path = some e → c e.manifest.artifactID = some (path,e)
  best : ∀ path e id e', own path = some e → c id = some (path,e') → id ≠ e.manifest.artifactID →
    rank (loserOf e'.manifest) < rank (loserOf e.manifest)
  covers : ∀ id path e, c id = some (path,e) → own path ≠ none

structure Elected (c : Claims) (own : Path → Option Entry) (b : Branch) : Prop where
  owner : ∀ path, b.owner path = (own path).map fun e => e.manifest.artifactID
  sorted : ∀ path, (b.losers path).Pairwise fun l l' => rank l' < rank l
  losers : ∀ path l, l ∈ b.losers path ↔ ∃ e, c l.id = some (path,e) ∧ l = loserOf e.manifest ∧ own path ≠ some e

/- A path is shared, and an artifact stands above another, only in a tree with collisions, the ones that share being plain
files and the one above a declared directory. -/
structure Apart (collide : Bool) (c : Claims) : Prop where
  below : ∀ id path e, c id = some (path,e) → path ≠ []
  shared : ∀ id id' path e e', c id = some (path,e) → c id' = some (path,e') → id ≠ id' → collide = true ∧ e.declared = false
  nested : ∀ id id' path path' e e', c id = some (path,e) → c id' = some (path',e') → path <:+ path' → path ≠ path' →
    collide = true ∧ e.declared = true

def Flat (c : Claims) : Prop :=
  ∀ id id' path path' e e', c id = some (path,e) → c id' = some (path',e') → path <:+ path' → path = path'

/- The tree and its books are those the claims call for; the sizes and times too, where that is asked for. -/
def Kept (collide : Bool) (strict : Prop) (born : Option Instant) (c : Claims) (b : Branch) : Prop :=
  ∃ own, Holds c own ∧ Follows own b.nodes ∧ (strict → Stamped born own b.nodes) ∧ (collide = true → Elected c own b)

variable {c}

section
variable {own own'}
theorem holdsUnique (holds : Holds c own) (holds' : Holds c own') : own = own' := by
  funext path
  cases held : own path with
  | none =>
    cases held' : own' path with
    | none => rfl
    | some e => exact absurd held (holds.covers _ path e (holds'.claimed path e held'))
  | some e =>
    have claim := holds.claimed path e held
    obtain ⟨e',held'⟩ := ne_none_iff_exists'.mp (holds'.covers _ path e claim)
    have claim' := holds'.claimed path e' held'
    rw [held']
    by_cases same : e.manifest.artifactID = e'.manifest.artifactID
    · rw [same,claim'] at claim
      cases claim
      rfl
    · have down := holds.best path e _ e' held claim' (Ne.symm same)
      have up := holds'.best path e' _ e held' claim same
      exact absurd up (not_lt.mpr down.le)

end

variable {b artifacts} {strict : Prop} {id path}

section
variable {c c' : Claims} {own own'} {b b' : Branch} (path : Path)
  (claims : ∀ id q e, q ≠ path → (c' id = some (q,e) ↔ c id = some (q,e)))
include claims
theorem holdsAside (holds : Holds c own) (aside : ∀ q, q ≠ path → own' q = own q)
    (claimed : ∀ e, own' path = some e → c' e.manifest.artifactID = some (path,e))
    (best : ∀ e id e', own' path = some e → c' id = some (path,e') → id ≠ e.manifest.artifactID →
      rank (loserOf e'.manifest) < rank (loserOf e.manifest))
    (covers : ∀ id e, c' id = some (path,e) → own' path ≠ none) : Holds c' own' := by
  refine ⟨fun q e held => ?_,fun q e id e' held claim differ => ?_,fun id q e claim => ?_⟩ <;> by_cases here : q = path
  · subst here
    exact claimed e held
  · exact (claims _ q e here).mpr (holds.claimed q e (aside q here ▸ held))
  · subst here
    exact best e id e' held claim differ
  · exact holds.best q e id e' (aside q here ▸ held) ((claims id q e' here).mp claim) differ
  · subst here
    exact covers id e claim
  · rw [aside q here]
    exact holds.covers id q e ((claims id q e here).mp claim)

theorem electedAside (elected : Elected c own b)
    (aside : ∀ q, q ≠ path → own' q = own q ∧ b'.owner q = b.owner q ∧ b'.losers q = b.losers q)
    (owner : b'.owner path = (own' path).map fun e => e.manifest.artifactID)
    (sorted : (b'.losers path).Pairwise fun l l' => rank l' < rank l)
    (losers : ∀ l, l ∈ b'.losers path ↔ ∃ e, c' l.id = some (path,e) ∧ l = loserOf e.manifest ∧ own' path ≠ some e) :
    Elected c' own' b' := by
  refine ⟨fun q => ?_,fun q => ?_,fun q l => ?_⟩ <;> by_cases here : q = path
  · subst here
    exact owner
  · obtain ⟨same,owned,_⟩ := aside q here
    rw [owned,same]
    exact elected.owner q
  · subst here
    exact sorted
  · rw [(aside q here).2.2]
    exact elected.sorted q
  · subst here
    exact losers l
  · obtain ⟨same,_,lost⟩ := aside q here
    rw [lost,same,elected.losers]
    exact exists_congr fun e => and_congr_left fun _ => (claims l.id q e here).symm

end

section
variable {x} {m : Manifest} {p own}
def Knows (artifacts : String → Option Record) (c : Claims) : Prop :=
  ∀ id path e, c id = some (path,e) → ∃ rec, artifacts id = some rec ∧ rec.manifest = e.manifest

def claiming (c : Claims) (m : Manifest) (p : Placement) : Claims := update c m.artifactID (some (p.path,⟨m,p.declared⟩))

theorem claimingSelf : claiming c m p m.artifactID = some (p.path,⟨m,p.declared⟩) := update_self ..

variable {e top collide t born}

theorem claimingOld (new : c m.artifactID = none) (claim : c id = some (path,e)) :
    id ≠ m.artifactID ∧ claiming c m p id = some (path,e) := by
  have differ : id ≠ m.artifactID := by
    rintro rfl
    rw [new] at claim
    cases claim
  exact ⟨differ,(update_of_ne differ ..).trans claim⟩

theorem claimingCases (claim : claiming c m p id = some (path,e)) :
    id = m.artifactID ∧ path = p.path ∧ e = ⟨m,p.declared⟩ ∨ id ≠ m.artifactID ∧ c id = some (path,e) := by
  by_cases same : id = m.artifactID
  · subst same
    rw [claimingSelf] at claim
    cases claim
    exact .inl ⟨rfl,rfl,rfl⟩
  · rw [claiming,update_of_ne same] at claim
    exact .inr ⟨same,claim⟩

theorem claimingElse (new : c m.artifactID = none) (here : path ≠ p.path) :
    claiming c m p id = some (path,e) ↔ c id = some (path,e) := by
  refine ⟨fun claim => ?_,fun claim => (claimingOld new claim).2⟩
  rcases claimingCases claim with ⟨_,same,_⟩ | ⟨_,before⟩
  · exact absurd same here
  · exact before

theorem holdsWon (holds : Holds c own) (new : c m.artifactID = none)
    (fresher : ∀ e, own p.path = some e → rank (loserOf e.manifest) < rank (loserOf m)) :
    Holds (claiming c m p) (update own p.path (some ⟨m,p.declared⟩)) := by
  refine holdsAside p.path (fun _ _ _ => claimingElse new) holds (fun q here => update_of_ne here ..) ?_ ?_ ?_
  · intro e held
    rw [update_self] at held
    cases held
    exact claimingSelf
  · intro e id e' held claim differ
    rw [update_self] at held
    cases held
    rcases claimingCases claim with ⟨same,_,_⟩ | ⟨_,before⟩
    · exact absurd same differ
    obtain ⟨top,owned⟩ := ne_none_iff_exists'.mp (holds.covers id _ e' before)
    have won := fresher top owned
    by_cases self : id = top.manifest.artifactID
    · have again := holds.claimed _ top owned
      rw [← self,before] at again
      cases again
      exact won
    · exact (holds.best _ top id e' owned before self).trans won
  · intro id e _
    rw [update_self]
    exact some_ne_none _

theorem holdsLost (holds : Holds c own) (new : c m.artifactID = none) (owned : own p.path = some top)
    (older : ¬ rank (loserOf top.manifest) < rank (loserOf m)) : Holds (claiming c m p) own := by
  refine ⟨fun path e held => (claimingOld new (holds.claimed path e held)).2,fun path e id e' held claim differ => ?_,
    fun id path e claim => ?_⟩
  · rcases claimingCases claim with ⟨same,here,rfl⟩ | ⟨_,before⟩
    · rw [here,owned] at held
      cases held
      exact lt_of_le_of_ne (not_lt.mp older) (rankOwner (same ▸ differ))
    · exact holds.best path e id e' held before differ
  · rcases claimingCases claim with ⟨_,here,_⟩ | ⟨_,before⟩
    · rw [here,owned]
      exact some_ne_none _
    · exact holds.covers id path e before

section
variable (apart : Apart collide (claiming c m p)) (holds : Holds c own) (new : c m.artifactID = none)
include apart holds new
theorem ownerShares (held : own p.path = some e) : collide = true ∧ e.declared = false ∧ p.declared = false := by
  obtain ⟨differ,claim⟩ := claimingOld new (holds.claimed p.path e held)
  have one := apart.shared _ _ _ _ _ claim claimingSelf differ
  have other := apart.shared _ _ _ _ _ claimingSelf claim differ.symm
  exact ⟨one.1,one.2,other.2⟩

theorem placeFollows (follows : Follows own t) :
    Follows (update own p.path (some ⟨m,p.declared⟩)) (insertArtifact born t p.path m p.declared) := by
  refine insertFollows follows (apart.below _ _ _ claimingSelf) (fun e held => (ownerShares apart holds new held).2.1) ?_
  intro q e held under differ
  have claim := (claimingOld (p := p) new (holds.claimed q e held)).2
  exact (apart.nested _ _ _ _ _ _ claim claimingSelf under differ).2

end

theorem placeStamped (apart : Apart collide (claiming c m p)) (flat : Flat (claiming c m p)) (holds : Holds c own)
    (new : c m.artifactID = none) (follows : Follows own t) (stamped : Stamped born own t) :
    Stamped born (update own p.path (some ⟨m,p.declared⟩)) (insertArtifact born t p.path m p.declared) := by
  refine insertStamped follows stamped (apart.below _ _ _ claimingSelf) ?_ fun e held => (ownerShares apart holds new held).2
  rintro ⟨leaf,entry,under,differ⟩
  obtain ⟨e,held⟩ := ne_none_iff_exists'.mp entry
  have claim := (claimingOld (p := p) new (holds.claimed leaf e held)).2
  exact differ (flat _ _ _ _ _ _ claimingSelf claim under)

theorem claimingHere (new : c m.artifactID = none) {l w} :
    (∃ e, claiming c m p l.id = some (p.path,e) ∧ l = loserOf e.manifest ∧ w ≠ some e) ↔
      l = loserOf m ∧ w ≠ some ⟨m,p.declared⟩ ∨ ∃ e, c l.id = some (p.path,e) ∧ l = loserOf e.manifest ∧ w ≠ some e := by
  constructor
  · rintro ⟨e,claim,shape,beaten⟩
    rcases claimingCases claim with ⟨_,_,rfl⟩ | ⟨_,before⟩
    · exact .inl ⟨shape,beaten⟩
    · exact .inr ⟨e,before,shape,beaten⟩
  · rintro (⟨rfl,beaten⟩ | ⟨e,claim,shape,beaten⟩)
    · exact ⟨⟨m,p.declared⟩,claimingSelf,rfl,beaten⟩
    · exact ⟨e,(claimingOld new claim).2,shape,beaten⟩

section
variable (elected : Elected c own b) (holds : Holds c own) (new : c m.artifactID = none)
include elected holds new
theorem electedFirst (free : own p.path = none) (nodes : Tree) :
    Elected (claiming c m p) (update own p.path (some ⟨m,p.declared⟩))
      ⟨nodes,update b.owner p.path (some m.artifactID),b.losers⟩ := by
  refine electedAside p.path (fun _ _ _ => claimingElse new) elected
    (fun q here => ⟨update_of_ne here ..,update_of_ne here ..,rfl⟩) ?_ (elected.sorted _) fun l => ?_
  · simp only [update_self]
    rfl
  · rw [elected.losers,update_self,claimingHere new]
    refine iff_of_false ?_ ?_
    · rintro ⟨e,claim,_⟩
      exact holds.covers _ _ _ claim free
    · rintro (⟨_,beaten⟩ | ⟨e,claim,_⟩)
      · exact beaten rfl
      · exact holds.covers _ _ _ claim free

theorem electedWon (owned : own p.path = some top) (nodes : Tree) :
    Elected (claiming c m p) (update own p.path (some ⟨m,p.declared⟩))
      ⟨nodes,update b.owner p.path (some m.artifactID),
        update b.losers p.path (pushLoser (loserOf top.manifest) (b.losers p.path))⟩ := by
  have claimed := holds.claimed _ _ owned
  refine electedAside p.path (fun _ _ _ => claimingElse new) elected
    (fun q here => ⟨update_of_ne here ..,update_of_ne here ..,update_of_ne here ..⟩) ?_ ?_ fun l => ?_
  · simp only [update_self]
    rfl
  · simp only [update_self]
    refine sortedPush (elected.sorted _) fun l mem same => ?_
    obtain ⟨e,claim,rfl,beaten⟩ := (elected.losers _ l).mp mem
    have id : e.manifest.artifactID = top.manifest.artifactID := congrArg (fun r => (ofLex r).2) same
    rw [loserOf,id,claimed] at claim
    cases claim
    exact beaten owned
  · simp only [update_self]
    rw [memPush,elected.losers,claimingHere new]
    have other : ∀ {e : Entry}, c e.manifest.artifactID = some (p.path,e) → some (⟨m,p.declared⟩ : Entry) ≠ some e := by
      intro e claim same
      cases same
      rw [new] at claim
      cases claim
    constructor
    · rintro (rfl | ⟨e,claim,rfl,_⟩)
      · exact .inr ⟨top,claimed,rfl,other claimed⟩
      · exact .inr ⟨e,claim,rfl,other claim⟩
    · rintro (⟨_,beaten⟩ | ⟨e,claim,rfl,_⟩)
      · exact absurd rfl beaten
      by_cases first : own p.path = some e
      · cases owned.symm.trans first
        exact .inl rfl
      · exact .inr ⟨e,claim,rfl,first⟩

theorem electedLost :
    Elected (claiming c m p) own {b with losers := update b.losers p.path (pushLoser (loserOf m) (b.losers p.path))} := by
  have apart : own p.path ≠ some ⟨m,p.declared⟩ := by
    intro same
    have claim := holds.claimed _ _ same
    rw [new] at claim
    cases claim
  refine electedAside p.path (fun _ _ _ => claimingElse new) elected (fun q here => ⟨rfl,rfl,update_of_ne here ..⟩)
    (elected.owner _) ?_ fun l => ?_
  · simp only [update_self]
    refine sortedPush (elected.sorted _) fun l mem same => ?_
    obtain ⟨e,claim,_,_⟩ := (elected.losers _ l).mp mem
    exact (claimingOld (p := p) new claim).1 (congrArg (fun r => (ofLex r).2) same)
  · simp only [update_self]
    rw [memPush,elected.losers,claimingHere new,and_iff_left apart]

end

theorem placeShared {N : (Path → Option Entry) → Tree → Prop} (holds : Holds c own) (books : Elected c own b)
    (knows : Knows artifacts c) (new : c m.artifactID = none) (collides : p.collide = true) (same : N own b.nodes)
    (won : N (update own p.path (some ⟨m,p.declared⟩)) (insertArtifact x.createdAt b.nodes p.path m p.declared)) :
    ∃ own', Holds (claiming c m p) own' ∧ N own' (b.place x artifacts m p).nodes ∧
      Elected (claiming c m p) own' (b.place x artifacts m p) := by
  rw [Branch.place,if_pos collides]
  unfold applyCollisionInsert
  rw [books.owner]
  cases owned : own p.path with
  | none =>
    have first := holdsWon (p := p) holds new fun e held => by
      rw [owned] at held
      cases held
    exact ⟨_,first,won,electedFirst books holds new owned _⟩
  | some top =>
    obtain ⟨rec,found,manifest⟩ := knows _ _ _ (holds.claimed _ _ owned)
    simp only [map_some,bind_some,found,manifest]
    split
    · next fresher =>
      have best := holdsWon (p := p) holds new fun e held => by
        cases owned.symm.trans held
        exact fresherIff.mp fresher
      exact ⟨_,best,won,electedWon books holds new owned _⟩
    · next older =>
      have lost := holdsLost holds new owned fun fresher => older (fresherIff.mpr fresher)
      exact ⟨own,lost,same,electedLost books holds new⟩

theorem placeKept (kept : Kept p.collide strict x.createdAt c b) (knows : Knows artifacts c)
    (new : c m.artifactID = none) (apart : Apart p.collide (claiming c m p)) (flat : strict → Flat (claiming c m p)) :
    Kept p.collide strict x.createdAt (claiming c m p) (b.place x artifacts m p) := by
  obtain ⟨own,holds,follows,stamped,elected⟩ := kept
  have nodes := @placeFollows c m p own p.collide b.nodes x.createdAt apart holds new follows
  have stamps := fun s : strict => placeStamped apart (flat s) holds new follows (stamped s)
  by_cases collides : p.collide = true
  · obtain ⟨own',holds',⟨follows',stamped'⟩,elected'⟩ := placeShared
      (N := fun own t => Follows own t ∧ (strict → Stamped x.createdAt own t)) holds (elected collides) knows new collides
      ⟨follows,stamped⟩ ⟨nodes,stamps⟩
    exact ⟨own',holds',follows',stamped',fun _ => elected'⟩
  · have won := holdsWon (p := p) holds new fun e held => absurd (ownerShares apart holds new held).1 collides
    rw [Branch.place,if_neg collides]
    exact ⟨_,won,nodes,stamps,fun shared => absurd shared collides⟩

end

section
variable {collide own e born}
def Named (c : Claims) : Prop := ∀ id path e, c id = some (path,e) → e.manifest.artifactID = id
def forgetting (c : Claims) (id : String) : Claims := update c id none

variable {other q e' next t}

theorem forgettingIff : forgetting c id other = some (q,e') ↔ other ≠ id ∧ c other = some (q,e') := by
  by_cases same : other = id
  · subst same
    rw [forgetting,update_self]
    simp
  · rw [forgetting,update_of_ne same]
    simp [same]

theorem forgettingElse (claim : c id = some (path,e)) (here : q ≠ path) :
    forgetting c id other = some (q,e') ↔ c other = some (q,e') := by
  rw [forgettingIff]
  refine and_iff_right_of_imp ?_
  rintro claim' rfl
  cases claim.symm.trans claim'
  exact here rfl

def vacating (own : Path → Option Entry) (path : Path) : Path → Option Entry := update own path none

theorem vacatingBack (held : own path = some e) : update (vacating own path) path (some e) = own := by
  rw [vacating,update_idem,← held,update_eq_self]

theorem vacatingSome (held : vacating own path q = some e') : q ≠ path ∧ own q = some e' := by
  have differ : q ≠ path := by
    rintro rfl
    rw [vacating,update_self] at held
    cases held
  rw [vacating,update_of_ne differ] at held
  exact ⟨differ,held⟩

theorem aboveVacated (apart : Apart collide c) (holds : Holds c own) (held : own path = some e) : AboveDeclared (vacating own path) path := by
  intro q e' entry under differ
  have claim := holds.claimed q e' (vacatingSome entry).2
  exact (apart.nested _ _ _ _ _ _ claim (holds.claimed path e held) under differ).2

theorem innerVacated (holds : Holds c own) (held : own path = some e) (inner : Inner (vacating own path) path) :
    ∃ id id' q e', c id = some (path,e) ∧ c id' = some (q,e') ∧ path <:+ q ∧ path ≠ q := by
  obtain ⟨leaf,entry,under,differ⟩ := inner
  obtain ⟨e',found⟩ := ne_none_iff_exists'.mp entry
  exact ⟨_,_,leaf,e',holds.claimed path e held,holds.claimed leaf e' (vacatingSome found).2,under,differ⟩

section
variable (holds : Holds c own) (claim : c id = some (path,e))
include holds claim
theorem holdsFreed (alone : ∀ other e', c other = some (path,e') → other = id) :
    Holds (forgetting c id) (vacating own path) := by
  refine holdsAside path (fun _ _ _ => forgettingElse claim) holds (fun q here => update_of_ne here ..) ?_ ?_ ?_
  · intro e' held
    exact absurd rfl (vacatingSome held).1
  · intro e' _ _ held
    exact absurd rfl (vacatingSome held).1
  · intro other e' claim'
    obtain ⟨differ,before⟩ := forgettingIff.mp claim'
    exact absurd (alone other e' before) differ

theorem holdsPassed (heir : forgetting c id next.manifest.artifactID = some (path,next))
    (best : ∀ other e', forgetting c id other = some (path,e') → other ≠ next.manifest.artifactID → rank (loserOf e'.manifest) < rank (loserOf next.manifest)) :
    Holds (forgetting c id) (update (vacating own path) path (some next)) := by
  rw [vacating,update_idem]
  refine holdsAside path (fun _ _ _ => forgettingElse claim) holds (fun q here => update_of_ne here ..) ?_ ?_ ?_
  · intro e' held
    rw [update_self] at held
    cases held
    exact heir
  · intro e' other e'' held claim' differ
    rw [update_self] at held
    cases held
    exact best other e'' claim' differ
  · intro _ _ _
    rw [update_self]
    exact some_ne_none _

theorem holdsSpared (beaten : own path ≠ some e) : Holds (forgetting c id) own := by
  refine ⟨fun q e' held => forgettingIff.mpr ⟨?_,holds.claimed q e' held⟩,fun q e' other e'' held claim' differ => ?_,
    fun other q e' claim' => holds.covers other q e' (forgettingIff.mp claim').2⟩
  · intro same
    have again := holds.claimed q e' held
    rw [same,claim] at again
    cases again
    exact beaten held
  · exact holds.best q e' other e'' held (forgettingIff.mp claim').2 differ

end

theorem vacantHere : vacating own path path = none := update_self ..

theorem freedFollows (apart : Apart collide c) (holds : Holds c own) (held : own path = some e) (follows : Follows own t) :
    Follows (vacating own path) (dropArtifact t path) := by
  have before : Follows (update (vacating own path) path (some e)) t := (vacatingBack held).symm ▸ follows
  exact dropFollows before vacantHere (apart.below _ _ _ (holds.claimed path e held)) (aboveVacated apart holds held)

theorem freedStamped (apart : Apart collide c) (flat : Flat c) (holds : Holds c own) (held : own path = some e)
    (follows : Follows own t) (stamped : Stamped born own t) :
    Stamped born (vacating own path) (dropArtifact t path) := by
  have before : Follows (update (vacating own path) path (some e)) t := (vacatingBack held).symm ▸ follows
  have leaf : ¬ Inner (vacating own path) path := by
    intro inner
    obtain ⟨_,_,_,_,claim,claim',under,differ⟩ := innerVacated holds held inner
    exact differ (flat _ _ _ _ _ _ claim claim' under)
  have below := apart.below _ _ _ (holds.claimed path e held)
  rw [dropLeaf before leaf]
  exact removeStamped ((vacatingBack held).symm ▸ stamped)
    (leafFollows before vacantHere below (aboveVacated apart holds held) leaf) (leafVacant vacantHere below leaf)

theorem plainForgot (kept : Kept false strict born c b) (apart : Apart false c) (flat : strict → Flat c)
    (claim : c id = some (path,e)) : Kept false strict born (forgetting c id) {b with nodes := removeFile b.nodes path} := by
  obtain ⟨own,holds,follows,stamped,_⟩ := kept
  have alone : ∀ other e', c other = some (path,e') → other = id := by
    intro other e' claim'
    by_contra differ
    cases (apart.shared _ _ _ _ _ claim' claim differ).1
  obtain ⟨e',held⟩ := ne_none_iff_exists'.mp (holds.covers id path e claim)
  have before : Follows (update (vacating own path) path (some e')) b.nodes := (vacatingBack held).symm ▸ follows
  have leaf : ¬ Inner (vacating own path) path := by
    intro inner
    obtain ⟨_,_,_,_,claim,claim',under,differ⟩ := innerVacated holds held inner
    cases (apart.nested _ _ _ _ _ _ claim claim' under differ).1
  have dropped := dropLeaf before leaf
  refine ⟨_,holdsFreed holds claim alone,?_,fun s => ?_,fun collides => by cases collides⟩
  · rw [← dropped]
    exact freedFollows apart holds held follows
  · rw [← dropped]
    exact freedStamped apart (flat s) holds held follows (stamped s)

section
variable (elected : Elected c own b) (claim : c id = some (path,e))
include elected claim
theorem memRemove {l} : l ∈ removeLoser id (b.losers path) ↔ l.id ≠ id ∧ l ∈ b.losers path := by
  unfold removeLoser
  by_cases present : ∃ l ∈ b.losers path, l.id = id
  · obtain ⟨l',mem,same⟩ := present
    obtain ⟨first,front,back,others,match',split,erased⟩ :=
      exists_of_eraseP (p := fun l => decide (l.id = id)) mem (decide_eq_true same)
    have here : first.id = id := of_decide_eq_true match'
    rw [erased,split]
    constructor
    · intro kept
      refine ⟨fun again => ?_,?_⟩
      · rcases mem_append.mp kept with early | late
        · exact others l early (by simpa using again)
        -- Two losers of one id are one loser, but the list is strictly sorted.
        have sorted := elected.sorted path
        rw [split] at sorted
        have below := (pairwise_cons.mp (pairwise_append.mp sorted).2.1).1 l late
        have mem1 : first ∈ b.losers path := split ▸ mem_append_right _ mem_cons_self
        have mem2 : l ∈ b.losers path := split ▸ mem_append_right _ (mem_cons_of_mem _ late)
        obtain ⟨e1,claim1,rfl,_⟩ := (elected.losers path first).mp mem1
        obtain ⟨e2,claim2,rfl,_⟩ := (elected.losers path l).mp mem2
        rw [here,claim] at claim1
        rw [again,claim] at claim2
        cases claim1
        cases claim2
        exact lt_irrefl _ below
      · rcases mem_append.mp kept with early | late
        · exact mem_append_left _ early
        · exact mem_append_right _ (mem_cons_of_mem _ late)
    · rintro ⟨differ,mem⟩
      rcases mem_append.mp mem with early | late
      · exact mem_append_left _ early
      · rcases mem_cons.mp late with rfl | later
        · exact absurd here differ
        · exact mem_append_right _ later
  · rw [eraseP_of_forall_not fun l mem same => present ⟨l,mem,by simpa using same⟩]
    exact ⟨fun mem => ⟨fun same => present ⟨l,mem,same⟩,mem⟩,fun both => both.2⟩

theorem electedSpared :
    Elected (forgetting c id) own {b with losers := update b.losers path (removeLoser id (b.losers path))} := by
  refine electedAside path (fun _ _ _ => forgettingElse claim) elected (fun q here => ⟨rfl,rfl,update_of_ne here ..⟩)
    (elected.owner _) ?_ fun l => ?_
  · simp only [update_self]
    exact (elected.sorted path).sublist eraseP_sublist
  · simp only [update_self,forgettingIff]
    rw [memRemove elected claim,elected.losers]
    constructor
    · rintro ⟨differ,e',claim',rest⟩
      exact ⟨e',⟨differ,claim'⟩,rest⟩
    · rintro ⟨e',⟨differ,claim'⟩,rest⟩
      exact ⟨differ,e',claim',rest⟩

theorem electedPassed (held : own path = some e) (named : e.manifest.artifactID = id) {promoted rest}
    (waiting : b.losers path = promoted::rest) (heir : c promoted.id = some (path,next))
    (shape : promoted = loserOf next.manifest) (nodes : Tree) :
    Elected (forgetting c id) (update (vacating own path) path (some next))
      ⟨nodes,update (update b.owner path none) path (some promoted.id),update b.losers path rest⟩ := by
  obtain ⟨top,tail⟩ := pairwise_cons.mp (waiting ▸ elected.sorted path)
  rw [vacating,update_idem,update_idem]
  refine electedAside path (fun _ _ _ => forgettingElse claim) elected
    (fun q here => ⟨update_of_ne here ..,update_of_ne here ..,update_of_ne here ..⟩) ?_ ?_ fun l => ?_
  · simp only [update_self,shape]
    rfl
  · simp only [update_self]
    exact tail
  · simp only [update_self,forgettingIff]
    constructor
    · intro mem
      obtain ⟨e',claim',rfl,beaten⟩ := (elected.losers path l).mp (waiting ▸ mem_cons_of_mem promoted mem)
      refine ⟨e',⟨fun same => ?_,claim'⟩,rfl,fun same => ?_⟩
      · rw [same,claim] at claim'
        cases claim'
        exact beaten held
      · cases same
        exact absurd (top _ mem) (shape ▸ lt_irrefl _)
    · rintro ⟨e',⟨differ,claim'⟩,rfl,other⟩
      have mem : loserOf e'.manifest ∈ b.losers path := by
        refine (elected.losers path _).mpr ⟨e',claim',rfl,fun same => ?_⟩
        cases held.symm.trans same
        exact differ named
      rw [waiting] at mem
      rcases mem_cons.mp mem with first | later
      · rw [first,heir] at claim'
        cases claim'
        exact absurd rfl other
      · exact later

theorem electedFreed (held : own path = some e) (named : e.manifest.artifactID = id) (waiting : b.losers path = []) (nodes : Tree) :
    Elected (forgetting c id) (vacating own path) ⟨nodes,update b.owner path none,b.losers⟩ := by
  refine electedAside path (fun _ _ _ => forgettingElse claim) elected
    (fun q here => ⟨update_of_ne here ..,update_of_ne here ..,rfl⟩) ?_ (elected.sorted _) fun l => ?_
  · simp only [update_self,vacating]
    rfl
  rw [waiting]
  refine iff_of_false not_mem_nil ?_
  rintro ⟨e',claim',rfl,_⟩
  obtain ⟨differ,claim'⟩ := forgettingIff.mp claim'
  by_cases first : own path = some e'
  · cases held.symm.trans first
    exact differ named
  · have mem := (elected.losers path _).mpr ⟨e',claim',rfl,first⟩
    rw [waiting] at mem
    exact absurd mem not_mem_nil

end

theorem forgetShared {N : (Path → Option Entry) → Tree → Prop} (holds : Holds c own) (books : Elected c own b)
    (knows : Knows artifacts c) (named : Named c) (claim : c id = some (path,e)) (same : N own b.nodes)
    (freed : own path = some e → N (vacating own path) (dropArtifact b.nodes path))
    (passed : ∀ next, own path = some e → c next.manifest.artifactID = some (path,next) → next.manifest.artifactID ≠ id →
      N (update (vacating own path) path (some next))
        (insertFile born (dropArtifact b.nodes path) path next.manifest)) :
    ∃ own', Holds (forgetting c id) own' ∧ N own' (removeFromCollisionTree born artifacts b id path).nodes ∧
      Elected (forgetting c id) own' (removeFromCollisionTree born artifacts b id path) := by
  have self := named id path e claim
  unfold removeFromCollisionTree
  by_cases held : own path = some e
  · have owner : b.owner path = some id := by
      rw [books.owner,held,map_some,self]
    -- Everyone else who claims the path waits for it.
    have waits : ∀ other e', c other = some (path,e') → other ≠ id → loserOf e'.manifest ∈ b.losers path := by
      intro other e' claim' differ
      have name := named other path e' claim'
      have self' : c (loserOf e'.manifest).id = some (path,e') := (congrArg c name).trans claim'
      refine (books.losers path _).mpr ⟨e',self',rfl,fun same => ?_⟩
      cases held.symm.trans same
      exact differ (name.symm.trans self)
    rw [if_pos owner]
    cases waiting : b.losers path with
    | nil =>
      have alone : ∀ other e', c other = some (path,e') → other = id := by
        intro other e' claim'
        by_contra differ
        have mem := waits other e' claim' differ
        rw [waiting] at mem
        exact absurd mem not_mem_nil
      exact ⟨_,holdsFreed holds claim alone,freed held,electedFreed books claim held self waiting _⟩
    | cons promoted rest =>
      obtain ⟨next,heir,shape,beaten⟩ := (books.losers path promoted).mp (waiting ▸ mem_cons_self)
      have differ : promoted.id ≠ id := by
        intro same
        rw [same,claim] at heir
        cases heir
        exact beaten held
      have name : promoted.id = next.manifest.artifactID := by rw [shape]; rfl
      obtain ⟨rec,found,manifest⟩ := knows _ _ _ heir
      have best := holdsPassed holds claim (forgettingIff.mpr ⟨name ▸ differ,name ▸ heir⟩) fun other e' claim' others => by
        obtain ⟨apart',before⟩ := forgettingIff.mp claim'
        have mem := waits other e' before apart'
        rw [waiting] at mem
        rcases mem_cons.mp mem with first | later
        · refine absurd ?_ others
          rw [← named other path e' before,← name,← first]
          rfl
        · have below := (pairwise_cons.mp (waiting ▸ books.sorted path)).1 _ later
          rwa [shape] at below
      simp only [found,manifest]
      exact ⟨_,best,passed next held (name ▸ heir) (name ▸ differ),
        electedPassed books claim held self waiting heir shape _⟩
  · have other : b.owner path ≠ some id := by
      intro owner
      rw [books.owner] at owner
      obtain ⟨e',owned,name⟩ := map_eq_some_iff.mp owner
      have again := holds.claimed path e' owned
      rw [name,claim] at again
      cases again
      exact held owned
    rw [if_neg other]
    exact ⟨own,holdsSpared holds claim held,same,electedSpared books claim⟩

theorem sharedForgot (kept : Kept true strict born c b) (apart : Apart true c) (flat : strict → Flat c) (knows : Knows artifacts c)
    (named : Named c) (claim : c id = some (path,e)) :
    Kept true strict born (forgetting c id) (removeFromCollisionTree born artifacts b id path) := by
  obtain ⟨own,holds,follows,stamped,elected⟩ := kept
  have freed := fun held : own path = some e => freedFollows apart holds held follows
  have stamps := fun (held : own path = some e) (s : strict) => freedStamped apart (flat s) holds held follows (stamped s)
  have below := apart.below _ _ _ claim
  have vacant : ∀ e', vacating own path path = some e' → False := fun e' there => by
    rw [vacantHere] at there
    cases there
  have shared : ∃ own', Holds (forgetting c id) own' ∧ (Follows own' _ ∧ (strict → Stamped born own' _)) ∧
      Elected (forgetting c id) own' (removeFromCollisionTree born artifacts b id path) := forgetShared
    (N := fun own t => Follows own t ∧ (strict → Stamped born own t)) holds (elected rfl) knows named claim ⟨follows,stamped⟩
    (fun held => ⟨freed held,stamps held⟩) fun next held heir differ => by
      have plain : next.declared = false := (apart.shared _ _ _ _ _ heir claim differ).2
      have entry : (⟨next.manifest,false⟩ : Entry) = next := by rw [← plain]
      refine ⟨?_,fun s => ?_⟩
      · rw [← entry]
        exact insertFollows (freed held) below (fun e' there => (vacant e' there).elim) (aboveVacated apart holds held)
      have leaf : ¬ Inner (vacating own path) path := by
        intro inner
        obtain ⟨_,_,_,_,claim,claim',under,differ⟩ := innerVacated holds held inner
        exact differ (flat s _ _ _ _ _ _ claim claim' under)
      rw [← entry]
      exact insertStamped (freed held) (stamps held s) below leaf fun e' there => (vacant e' there).elim
  obtain ⟨own',holds',⟨follows',stamped'⟩,elected'⟩ := shared
  exact ⟨own',holds',follows',stamped',fun _ => elected'⟩

end

end Scrinium.Projection
