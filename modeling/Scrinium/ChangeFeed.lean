import Scrinium.Following
import Scrinium.IndexQueries

/-! A consumer of the change feed (sync.go, refresh.go and the delta source of the composition root). -/
namespace Scrinium.ChangeFeed
open List hiding after
open Keyed Domain SqliteIndex Following Trace

def manifestByDigest (tx : Index) (digest : String) : Option ManifestRecord :=
  match hexKey digest with
  | .ok (some key) =>
    match tx.manifests.lookup key with
    | some row => if row.artifactID.isSome then some (scanManifestRow tx ⟨key,row⟩) else none
    | none => none
  | _ => none

/-- What a consumer keeps: the rows its walk shows, and how it admits a change. A shown row is admitted, and
an admitted change that has a row is shown; of a change whose row is gone nothing is asked. -/
structure Reader where
  shown : ManifestRow → Bool
  admits : Index → String → Bool
  restamped : ∀ row n, shown {row with csn := n} = shown row
  takes : ∀ {tx key row}, key ≠ [] → tx.manifests.lookup key = some row → shown row = true → admits tx (hexOut key) = true
  shows : ∀ {tx key row}, key ≠ [] → tx.manifests.lookup key = some row → admits tx (hexOut key) = true → shown row = true

theorem byDigestFound {tx key row} (named : key ≠ []) (found : tx.manifests.lookup key = some row) :
    (manifestByDigest tx (hexOut key)).isSome = row.artifactID.isSome := by
  unfold manifestByDigest
  rw [hexKeyEncode named]
  simp only [found]
  split
  · next some' => rw [some']; rfl
  · next none => rw [Bool.eq_false_of_not_eq_true none]; rfl

def Reader.projection : Reader where
  shown row := row.artifactID.isSome
  admits tx digest := (manifestByDigest tx digest).isSome
  restamped _ _ := rfl
  takes named found shown := (byDigestFound named found).trans shown
  shows named found admitted := (byDigestFound named found).symm.trans admitted

def walk (reader : Reader) (tx : Index) : List String :=
  (tx.manifests.entries.filter fun entry => reader.shown entry.2).map fun entry => hexOut entry.1

theorem walkIterates (tx : Index) : ((iterateManifests tx).map ManifestRecord.digest).Perm (walk .projection tx) := by
  have rows : (((userRows tx).map (scanManifestRow tx)).map ManifestRecord.digest) = walk .projection tx := by
    rw [map_map]
    rfl
  rw [← rows]
  exact (perm_insertionSort _ _).map _

inductive Phase where
  | idle
  | started (target : Nat)
  | queried (target : Nat) (changes : List Change)
  | resolving (target next : Nat) (rest : List String)
  | walking (target : Nat)
  deriving DecidableEq

structure Consumer where
  set : List String
  admitted : List String
  cursor : Nat
  phase : Phase
  deriving DecidableEq

def Consumer.fresh : Consumer := ⟨[],[],0,.idle⟩

inductive Step where
  | token
  | query
  | watermark
  | resolve
  | finish
  | fail
  | walk
  | abandon
  deriving DecidableEq

/- One step of a poll against the index as it stands. A pull that fails falls back to the full walk, and a walk that fails
leaves the consumer as it was. -/
def advance (reader : Reader) (tx : Index) (c : Consumer) (step : Step) : Consumer :=
  match step, c.phase with
  | .token, .idle => if token tx = c.cursor then c else {c with phase := .started (token tx)}
  | .query, .started target => {c with phase := .queried target (changedSince tx c.cursor)}
  | .watermark, .queried target changes =>
    if gappedAt tx c.cursor then {c with phase := .walking target}
    else {c with phase := .resolving target (nextCursor c.cursor changes) (changes.map Change.digest)}
  | .resolve, .resolving target next (digest::rest) =>
    {c with
      admitted := if reader.admits tx digest then digest::c.admitted else c.admitted
      phase := .resolving target next rest}
  | .finish, .resolving _ next [] => ⟨c.admitted ++ c.set,[],next,.idle⟩
  | .fail, .started target => {c with phase := .walking target}
  | .fail, .queried target _ => {c with phase := .walking target}
  | .fail, .resolving target _ _ => {c with admitted := [], phase := .walking target}
  | .walk, .walking target => ⟨ChangeFeed.walk reader tx,[],target,.idle⟩
  | .abandon, _ => {c with admitted := [], phase := .idle}
  | _, _ => c

inductive Event where
  | transaction (op : IndexOp)
  | poll (step : Step)

structure Shared where
  index : Index
  consumer : Consumer

def Shared.opened : Shared := ⟨.empty,.fresh⟩

def run (reader : Reader) (indexes : List CustomIndex) (s : Shared) : Event → Shared
  | .transaction op => {s with index := transact indexes s.index op}
  | .poll step => {s with consumer := advance reader s.index s.consumer step}

variable {reader tx}

section
variable {tx'}
def feed (reader : Reader) (tx : Index) : Following.Table String where
  live digest n := ∃ key row, digest = hexOut key ∧ tx.manifests.lookup key = some row ∧ row.csn = n
  shown digest := ∃ key row, digest = hexOut key ∧ tx.manifests.lookup key = some row ∧ reader.shown row = true
  clock := tx.csn
  pruned := tx.pruneCsn

def Live (reader : Reader) (tx : Index) (digest : String) : Prop :=
  ∃ key row, digest = hexOut key ∧ tx.manifests.lookup key = some row ∧ reader.shown row = true

variable {digest}

theorem visibleIff : Visible (feed reader tx) digest ↔ Live reader tx digest := by
  constructor
  · exact fun visible => visible.2
  · rintro ⟨key,row,rfl,found,shown⟩
    exact ⟨⟨row.csn,key,row,rfl,found,rfl⟩,key,row,rfl,found,shown⟩

theorem walkMem : digest ∈ walk reader tx ↔ Visible (feed reader tx) digest := by
  rw [visibleIff,walk,mem_map]
  constructor
  · rintro ⟨entry,mem,rfl⟩
    obtain ⟨held,shown⟩ := mem_filter.mp mem
    exact ⟨entry.1,entry.2,rfl,lookupEntry.mpr held,shown⟩
  · rintro ⟨key,row,rfl,found,shown⟩
    exact ⟨⟨key,row⟩,mem_filter.mpr ⟨lookupEntry.mp found,shown⟩,rfl⟩

theorem shownRow {key row} (found : tx.manifests.lookup key = some row) :
    (feed reader tx).shown (hexOut key) ↔ reader.shown row = true := by
  constructor
  · rintro ⟨other,row',same,found',shown⟩
    cases HexText.encodeInjective same
    cases someSame found found'
    exact shown
  · exact fun shown => ⟨key,row,rfl,found,shown⟩

theorem evolvesRefl (reader : Reader) (tx : Index) : Evolves (feed reader tx) (feed reader tx) where
  clock := Nat.le_refl _
  pruned := Nat.le_refl _
  rows _ _ live := .inl ⟨live,Iff.rfl⟩
  kept := .inr fun _ n live => ⟨⟨n,live⟩,Iff.rfl⟩

theorem evolvesRegister (m : Manifest) (path : String) (now : Instant) (r : Registration) :
    Evolves (feed reader tx) (feed reader (register tx m path now r)) where
  clock := Nat.le_succ _
  pruned := Nat.le_refl _
  rows := by
    rintro digest n ⟨key,row,rfl,found,rfl⟩
    have looked := registerLookup tx m path now r key
    rw [found] at looked
    split at looked
    · cases looked
      exact .inr (Nat.lt_succ_self _)
    · refine .inl ⟨⟨key,row,rfl,looked.symm,rfl⟩,?_⟩
      rw [shownRow found,shownRow looked.symm]
  kept := by
    refine .inr ?_
    rintro digest n ⟨key,row,rfl,found,rfl⟩
    have looked := registerLookup tx m path now r key
    split at looked
    · next same =>
      rw [← same,found,Option.getD_some] at looked
      refine ⟨⟨_,key,_,rfl,looked,rfl⟩,?_⟩
      rw [shownRow looked,shownRow found,reader.restamped]
    · rw [found] at looked
      exact ⟨⟨_,key,row,rfl,looked,rfl⟩,by rw [shownRow looked,shownRow found]⟩

theorem evolvesDrop (seq : Sequenced tx) (digest : Key) :
    Evolves (feed reader tx) (feed reader (markPrune (nextCSN (dropManifest tx digest)))) where
  clock := Nat.le_succ _
  pruned := Nat.le_succ_of_le seq.pruned
  rows := by
    rintro text n ⟨key,row,rfl,found,rfl⟩
    have looked := dropLookup tx digest key
    rw [found] at looked
    split at looked
    · cases looked
    · refine .inl ⟨⟨key,row,rfl,looked.symm,rfl⟩,?_⟩
      rw [shownRow found,shownRow looked.symm]
  kept := .inl (Nat.lt_succ_self _)

theorem evolvesTransact (indexes : List CustomIndex) (seq : Sequenced tx) (op : IndexOp) :
    Evolves (feed reader tx) (feed reader (transact indexes tx op)) := by
  have done := transacted indexes tx op
  generalize transact indexes tx op = tx' at done ⊢
  cases done with
  | same => exact evolvesRefl reader tx
  | registered => exact evolvesRegister _ _ _ _
  | dropped key => exact evolvesDrop seq key
  | reaped => exact evolvesRefl reader tx

def Named (tx : Index) : Prop := ∀ key ∈ tx.manifests, key ≠ []

theorem namedTransact (indexes : List CustomIndex) (named : Named tx) (op : IndexOp) : Named (transact indexes tx op) := by
  have done := transacted indexes tx op
  generalize transact indexes tx op = tx' at done ⊢
  cases done with
  | same => exact named
  | registered possible =>
    intro key mem
    rw [memLookup,registerLookup] at mem
    split at mem
    · next same =>
      rintro rfl
      have bound := bindKeyOk.mp (registrationDigest possible)
      rw [← same] at bound
      exact hexKeyNonempty bound rfl
    · exact named key (memLookup.mpr mem)
  | dropped key =>
    intro other mem
    exact named other (AList.mem_erase.mp mem).2
  | reaped => exact named

end

section

theorem nextCons (cursor : Nat) (change : Change) (rest : List Change) :
    nextCursor cursor (change::rest) = nextCursor change.csn rest := rfl

theorem nextCases (cursor : Nat) (changes : List Change) :
    nextCursor cursor changes = cursor ∨ ∃ change ∈ changes, nextCursor cursor changes = change.csn := by
  induction changes generalizing cursor with
  | nil => exact .inl rfl
  | cons change rest ih =>
    rw [nextCons]
    rcases ih change.csn with same | ⟨later,mem,same⟩
    · exact .inr ⟨change,mem_cons_self,same⟩
    · exact .inr ⟨later,mem_cons_of_mem _ mem,same⟩

variable {cursor}

theorem nextTop {changes} (sorted : changes.Pairwise fun a b => a.csn ≤ b.csn)
    (above : ∀ change ∈ changes, cursor ≤ change.csn) :
    cursor ≤ nextCursor cursor changes ∧ ∀ change ∈ changes, change.csn ≤ nextCursor cursor changes := by
  induction changes generalizing cursor with
  | nil => exact ⟨Nat.le_refl _,nofun⟩
  | cons change rest ih =>
    obtain ⟨least,tail⟩ := pairwise_cons.mp sorted
    obtain ⟨here,later⟩ := ih tail least
    rw [nextCons]
    refine ⟨Nat.le_trans (above change mem_cons_self) here,fun other mem => ?_⟩
    rcases mem_cons.mp mem with rfl | inside
    · exact here
    · exact later other inside

theorem queryTop (reader : Reader) (tx : Index) (cursor : Nat) : cursor ≤ nextCursor cursor (changedSince tx cursor) ∧
    ∀ digest n, (feed reader tx).live digest n → n ≤ nextCursor cursor (changedSince tx cursor) := by
  obtain ⟨here,all⟩ := nextTop (changedSorted tx cursor) fun change mem => by
    obtain ⟨_,_,_,above,rfl⟩ := changedMem.mp mem
    exact Nat.le_of_lt above
  refine ⟨here,?_⟩
  rintro digest n ⟨key,row,rfl,found,rfl⟩
  by_cases old : row.csn ≤ cursor
  · exact Nat.le_trans old here
  · exact all ⟨hexOut key,row.csn⟩ (changedMem.mpr ⟨key,row,found,Nat.lt_of_not_le old,rfl⟩)

theorem pulledQuery (seq : Sequenced tx) (bounded : cursor ≤ tx.csn) :
    Pulled (feed reader tx) cursor (nextCursor cursor (changedSince tx cursor)) ((changedSince tx cursor).map Change.digest) where
  ordered := (queryTop reader tx cursor).1
  bounded := by
    rcases nextCases cursor (changedSince tx cursor) with same | ⟨change,mem,same⟩
    · rw [same]; exact bounded
    · obtain ⟨key,row,found,_,rfl⟩ := changedMem.mp mem
      rw [same]
      exact (seq.issued found).2
  complete := by
    rintro digest n ⟨key,row,rfl,found,rfl⟩ above _
    exact mem_map.mpr ⟨⟨hexOut key,row.csn⟩,changedMem.mpr ⟨key,row,found,above,rfl⟩,rfl⟩
  sound := by
    refine .inr fun digest mem => ?_
    obtain ⟨change,inside,rfl⟩ := mem_map.mp mem
    obtain ⟨key,row,found,_,rfl⟩ := changedMem.mp inside
    exact ⟨row.csn,key,row,rfl,found,rfl⟩

end

section
variable {c}
def Pending (reader : Reader) (tx : Index) (c : Consumer) : Prop :=
  match c.phase with
  | .idle => c.admitted = []
  | .started target => c.admitted = [] ∧ target ≤ tx.csn
  | .queried target changes => c.admitted = [] ∧ target ≤ tx.csn ∧
      Pulled (feed reader tx) c.cursor (nextCursor c.cursor changes) (changes.map Change.digest)
  | .resolving target next rest => target ≤ tx.csn ∧ Applying (feed reader tx) (c.admitted ++ c.set) next rest
  | .walking target => c.admitted = [] ∧ target ≤ tx.csn

structure Tracks (reader : Reader) (tx : Index) (c : Consumer) : Prop where
  sequenced : Sequenced tx
  named : Named tx
  follows : Follows (feed reader tx) c.set c.cursor
  pending : Pending reader tx c

theorem tracksOpened (reader : Reader) : Tracks reader .empty .fresh where
  sequenced := sequencedEmpty
  named := by
    intro key mem
    cases mem
  follows := followsStart fun digest n live => by
    obtain ⟨key,row,_,found,_⟩ := live
    cases found
  pending := rfl

theorem tracksTransact (indexes : List CustomIndex) (tracks : Tracks reader tx c) (op : IndexOp) :
    Tracks reader (transact indexes tx op) c := by
  have e : Evolves (feed reader tx) (feed reader (transact indexes tx op)) := evolvesTransact indexes tracks.sequenced op
  refine ⟨sequencedTransact op tracks.sequenced,namedTransact indexes tracks.named op,followsEvolves e tracks.follows,?_⟩
  have pending := tracks.pending
  obtain ⟨set,admitted,cursor,phase⟩ := c
  cases phase with
  | idle => exact pending
  | started target => exact ⟨pending.1,Nat.le_trans pending.2 e.clock⟩
  | queried target changes => exact ⟨pending.1,Nat.le_trans pending.2.1 e.clock,pulledEvolves e pending.2.2⟩
  | resolving target next rest => exact ⟨Nat.le_trans pending.1 e.clock,applyingEvolves e pending.2⟩
  | walking target => exact ⟨pending.1,Nat.le_trans pending.2 e.clock⟩

theorem resolveAdmits {set rest digest next} (named : Named tx)
    (applying : Applying (feed reader tx) set next (digest::rest)) :
    Applying (feed reader tx) (if reader.admits tx digest then digest::set else set) next rest := by
  refine applyingAdmit applying (fun visible => ?_) ?_
  · obtain ⟨key,row,rfl,found,shown⟩ := visibleIff.mp visible
    exact reader.takes (named key (memLookup.mpr ⟨row,found⟩)) found shown
  · rintro n ⟨key,row,rfl,found,_⟩ taken
    exact (shownRow found).mpr (reader.shows (named key (memLookup.mpr ⟨row,found⟩)) found taken)

theorem tracksAdvance (tracks : Tracks reader tx c) (step : Step) : Tracks reader tx (advance reader tx c step) := by
  obtain ⟨sequenced,named,follows,pending⟩ := tracks
  obtain ⟨set,admitted,cursor,phase⟩ := c
  unfold advance
  split
  · next same =>
    cases same
    split
    · exact ⟨sequenced,named,follows,pending⟩
    · exact ⟨sequenced,named,follows,pending,Nat.le_refl _⟩
  · next same =>
    cases same
    exact ⟨sequenced,named,follows,pending.1,pending.2,pulledQuery sequenced follows.bounded⟩
  · next same =>
    cases same
    split
    · exact ⟨sequenced,named,follows,pending.1,pending.2.1⟩
    · next whole =>
      have start := applyingStart follows pending.2.2 (Nat.not_lt.mp (of_decide_eq_false (Bool.eq_false_of_not_eq_true whole)))
      exact ⟨sequenced,named,follows,pending.2.1,by rw [pending.1]; exact start⟩
  · next digest rest same =>
    cases same
    have joined : (if reader.admits tx digest then digest::admitted else admitted) ++ set =
        if reader.admits tx digest then digest::(admitted ++ set) else admitted ++ set := by split <;> rfl
    refine ⟨sequenced,named,follows,pending.1,?_⟩
    show Applying _ ((if reader.admits tx digest then digest::admitted else admitted) ++ set) _ _
    rw [joined]
    exact resolveAdmits named pending.2
  · next same =>
    cases same
    exact ⟨sequenced,named,followsApplied pending.2,rfl⟩
  · next same =>
    cases same
    exact ⟨sequenced,named,follows,pending⟩
  · next same =>
    cases same
    exact ⟨sequenced,named,follows,pending.1,pending.2.1⟩
  · next same =>
    cases same
    exact ⟨sequenced,named,follows,rfl,pending.1⟩
  · next same =>
    cases same
    exact ⟨sequenced,named,followsWalk (fun _ => walkMem) pending.2,rfl⟩
  · exact ⟨sequenced,named,follows,rfl⟩
  · exact ⟨sequenced,named,follows,pending⟩

def Current (reader : Reader) (tx : Index) (c : Consumer) : Prop :=
  match c.phase with
  | .queried _ changes => ∀ digest n, (feed reader tx).live digest n → n ≤ nextCursor c.cursor changes
  | .resolving _ next _ => (∀ digest n, (feed reader tx).live digest n → n ≤ next) ∧ tx.pruneCsn ≤ next
  | _ => True

theorem currentAdvance (tracks : Tracks reader tx c) (current : Current reader tx c) (step : Step) :
    Current reader tx (advance reader tx c step) := by
  obtain ⟨_,_,_,pending⟩ := tracks
  obtain ⟨set,admitted,cursor,phase⟩ := c
  unfold advance
  split
  · next same =>
    cases same
    split <;> exact trivial
  · next same => exact (queryTop reader tx cursor).2
  · next same =>
    cases same
    split
    · exact trivial
    · next whole =>
      have reached := Nat.not_lt.mp (of_decide_eq_false (Bool.eq_false_of_not_eq_true whole))
      exact ⟨current,Nat.le_trans reached pending.2.2.ordered⟩
  · next same =>
    cases same
    exact current
  · exact trivial
  · exact trivial
  · exact trivial
  · exact trivial
  · exact trivial
  · exact trivial
  · exact current

def Closes (tx : Index) (c : Consumer) : Step → Prop
  | .token => c.phase = .idle ∧ token tx = c.cursor
  | .finish => ∃ target next, c.phase = .resolving target next []
  | .walk => ∃ target, c.phase = .walking target
  | _ => False

def Completes (reader : Reader) (tx : Index) (c : Consumer) (poll : List Step) : Prop :=
  ∃ steps last, poll = steps ++ [last] ∧ Closes tx (after (advance reader tx) c steps) last

theorem closedExactly {last} (tracks : Tracks reader tx c) (current : Current reader tx c) (closes : Closes tx c last)
    (digest : String) : digest ∈ (advance reader tx c last).set ↔ Live reader tx digest := by
  rw [← visibleIff]
  have after := (tracksAdvance tracks last).follows
  obtain ⟨set,admitted,cursor,phase⟩ := c
  cases last with
  | token =>
    obtain ⟨same,reached⟩ := closes
    cases same
    have still : advance reader tx ⟨set,admitted,cursor,.idle⟩ .token = ⟨set,admitted,cursor,.idle⟩ := if_pos reached
    rw [still] at after ⊢
    refine followsExactly after ?_ (reached ▸ tracks.sequenced.pruned) digest
    rintro text n ⟨key,row,_,found,rfl⟩
    exact reached ▸ (tracks.sequenced.issued found).2
  | finish =>
    obtain ⟨target,next,same⟩ := closes
    cases same
    exact followsExactly after current.1 current.2 digest
  | walk =>
    obtain ⟨target,same⟩ := closes
    cases same
    exact walkMem
  | query => exact closes.elim
  | watermark => exact closes.elim
  | resolve => exact closes.elim
  | fail => exact closes.elim
  | abandon => exact closes.elim

theorem pollExactly {poll} (tracks : Tracks reader tx c) (idle : c.phase = .idle)
    (completes : Completes reader tx c poll) (digest : String) :
    digest ∈ (after (advance reader tx) c poll).set ↔ Live reader tx digest := by
  obtain ⟨steps,last,rfl,closes⟩ := completes
  have keep : ∀ (c : Consumer) (step : Step), Tracks reader tx c ∧ Current reader tx c →
      Tracks reader tx (advance reader tx c step) ∧ Current reader tx (advance reader tx c step) :=
    fun c step held => ⟨tracksAdvance held.1 step,currentAdvance held.1 held.2 step⟩
  have start : Current reader tx c := by
    unfold Current
    rw [idle]
    exact trivial
  obtain ⟨tracks',current⟩ := invariantRun keep steps ⟨tracks,start⟩
  rw [after,foldl_append]
  exact closedExactly tracks' current closes digest

theorem resolvesAll (reader : Reader) (tx : Index) (target next : Nat) (rest : List String) (c : Consumer)
    (phase : c.phase = .resolving target next rest) :
    (after (advance reader tx) c (List.replicate rest.length .resolve)).phase = .resolving target next [] := by
  induction rest generalizing c with
  | nil => exact phase
  | cons digest rest ih =>
    obtain ⟨set,admitted,cursor,_⟩ := c
    cases phase
    exact ih _ rfl

theorem pollEnds (reader : Reader) (tx : Index) (idle : c.phase = .idle) : ∃ poll, Completes reader tx c poll := by
  obtain ⟨set,admitted,cursor,_⟩ := c
  cases idle
  by_cases reached : token tx = cursor
  · exact ⟨[.token],[],.token,rfl,rfl,reached⟩
  have first : advance reader tx ⟨set,admitted,cursor,.idle⟩ .token = ⟨set,admitted,cursor,.started (token tx)⟩ := if_neg reached
  have second : after (advance reader tx) ⟨set,admitted,cursor,.idle⟩ [.token,.query] =
      ⟨set,admitted,cursor,.queried (token tx) (changedSince tx cursor)⟩ := by
    rw [after,foldl_cons,first]
    rfl
  have third : after (advance reader tx) ⟨set,admitted,cursor,.idle⟩ [.token,.query,.watermark] =
      advance reader tx ⟨set,admitted,cursor,.queried (token tx) (changedSince tx cursor)⟩ .watermark :=
    congrArg (fun c => advance reader tx c .watermark) second
  cases gapped : gappedAt tx cursor with
  | true =>
    refine ⟨[.token,.query,.watermark,.walk],[.token,.query,.watermark],.walk,rfl,token tx,?_⟩
    rw [third]
    simp [advance,gapped]
  | false =>
    refine ⟨_,[.token,.query,.watermark] ++ List.replicate ((changedSince tx cursor).map Change.digest).length .resolve,.finish,
      rfl,token tx,nextCursor cursor (changedSince tx cursor),?_⟩
    rw [after,foldl_append]
    refine resolvesAll reader tx (token tx) _ _ _ ?_
    have phase := congrArg Consumer.phase third
    simp only [advance,gapped] at phase
    exact phase

end

/-- Over every history of transactions and polls no shown row up to the cursor is missing and nothing but later
deletions is in excess; an undisturbed poll leaves exactly the live digests. -/
theorem feedComplete (reader : Reader) (indexes : List CustomIndex) (history : List Event) :
    let s := after (run reader indexes) .opened history
    (∀ key row, s.index.manifests.lookup key = some row → reader.shown row = true → row.csn ≤ s.consumer.cursor →
      hexOut key ∈ s.consumer.set) ∧
    (∀ digest ∈ s.consumer.set, Live reader s.index digest ∨ s.consumer.cursor < s.index.pruneCsn) ∧
    (s.consumer.phase = .idle → (∃ poll, Completes reader s.index s.consumer poll) ∧
      ∀ poll, Completes reader s.index s.consumer poll → ∀ digest,
        digest ∈ (after (advance reader s.index) s.consumer poll).set ↔ Live reader s.index digest) := by
  have keep : ∀ (s : Shared) (event : Event), Tracks reader s.index s.consumer →
      Tracks reader (run reader indexes s event).index (run reader indexes s event).consumer := by
    intro s event tracks
    cases event with
    | transaction op => exact tracksTransact indexes tracks op
    | poll step => exact tracksAdvance tracks step
  have opened : Tracks reader Shared.opened.index Shared.opened.consumer := tracksOpened reader
  have tracks := invariantRun keep history opened
  refine ⟨fun key row found shown below => ?_,fun digest mem => ?_,fun idle => ?_⟩
  · exact tracks.follows.complete (hexOut key) row.csn ⟨key,row,rfl,found,rfl⟩ ((shownRow found).mpr shown) below
  · rcases tracks.follows.sound with gap | all
    · exact .inr gap
    · exact .inl (visibleIff.mp (all digest mem))
  · exact ⟨pollEnds reader _ idle,fun poll completes => pollExactly tracks idle completes⟩

def interleaved : List Event :=
  [.transaction (.indexManifest inlineSample "" 0),.poll .token,.poll .query,.transaction (.deleteManifest "d1000001"),
    .poll .watermark,.poll .walk,.transaction (.indexManifest inlineSample "" 0)]

theorem interleavedCaughtUp :
    let s := after (run .projection []) .opened interleaved
    s.consumer.cursor = 1 ∧ s.consumer.set = [] ∧
      (after (advance .projection s.index) s.consumer [.token,.query,.watermark,.walk]).set = ["d1000001"] ∧
      ∀ digest, digest ∈ (after (advance .projection s.index) s.consumer [.token,.query,.watermark,.walk]).set ↔
        Live .projection s.index digest := by
  intro s
  have idle : s.consumer.phase = .idle := by decide +kernel
  have completes : Completes .projection s.index s.consumer [.token,.query,.watermark,.walk] :=
    ⟨[.token,.query,.watermark],.walk,rfl,3,by decide +kernel⟩
  exact ⟨by decide +kernel,by decide +kernel,by decide +kernel,
    ((feedComplete .projection [] interleaved).2.2 idle).2 _ completes⟩

end Scrinium.ChangeFeed
