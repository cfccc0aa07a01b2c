import Scrinium.InitRefusals

/-! Opening accepts either descriptor replica, initialising looks at the primary one only. -/
namespace Scrinium.InitStore
open Keyed Domain LocalFs Cas Named
open StoreDescriptor (Codec Descriptor HashRegistry Halt Reading Replica loadCanonicalDescriptor loadedOk readReplica)

section
variable {x hashes fs fs' d now}
theorem verifiedRegistry {m} (ok : StoreDescriptor.verifyInlinePayload hashes m = .ok ()) : hashes.isSome = true := by
  unfold StoreDescriptor.verifyInlinePayload at ok
  split at ok
  · cases ok
  · split at ok
    · cases ok
    · rfl

theorem validRegistry {r} (valid : readReplica x hashes fs r = .ok (.valid d)) : hashes.isSome = true := by
  unfold readReplica at valid
  rw [StoreDescriptor.loadReplica] at valid
  cases loaded : StoreDescriptor.load x hashes fs (cellFile r.name) with
  | error halt =>
    rw [loaded] at valid
    cases halt <;> cases valid
  | ok m =>
    unfold StoreDescriptor.load at loaded
    split at loaded
    · cases loaded
    split at loaded
    · cases loaded
    split at loaded
    · cases loaded
    split at loaded
    · cases loaded
    · obtain ⟨_,verified,_⟩ := Trace.bindOk.mp loaded
      exact verifiedRegistry verified

variable (loaded : loadCanonicalDescriptor x hashes now fs = .ok (d,fs'))
include loaded

theorem loadedRegistry : hashes.isSome = true := by
  obtain ⟨l0,l1,action,first,second,picked,_⟩ := loadedOk.mp loaded
  rcases StoreDescriptor.reconciled picked with ⟨_,rfl,_⟩ | ⟨_,rfl⟩ | ⟨_,rfl⟩
  · exact validRegistry first
  · exact validRegistry second
  · exact validRegistry first

theorem loadedReads : StoreDescriptor.read x hashes fs ≠ .error .panicked := by
  obtain ⟨l0,_,_,first,_⟩ := loadedOk.mp loaded
  have opened : StoreDescriptor.loadCell x hashes fs StoreDescriptor.name =
      StoreDescriptor.loadCell x hashes fs Replica.l0.name := rfl
  unfold readReplica at first
  rw [StoreDescriptor.read,opened]
  cases cell : StoreDescriptor.loadCell x hashes fs Replica.l0.name with
  | error halt =>
    rw [cell] at first
    cases halt with
    | panicked => cases first
    | artifactNotFound => simp [bind,Except.bind]
    | corruptedContent => simp [bind,Except.bind]
    | failed err => simp [bind,Except.bind]
  | ok m => cases parsed : StoreDescriptor.unmarshal x m.inlineBlob <;> simp [bind,Except.bind,Except.mapError,parsed]

end

theorem gentleTouches {x o draw s} (gentle : o.forceReinit = false) :
    Touches x o draw s ↔ s.fs.lookup primary = none ∧ ∃ cfg kind body, Admitted o cfg kind ∧ Writes x o draw cfg kind body := by
  constructor
  · rintro ⟨cfg,kind,admitted,wipes | ⟨absent,body,writes⟩⟩
    · rw [Wipes,gentle] at wipes
      cases wipes.2.1
    · exact ⟨absent,cfg,kind,body,admitted,writes⟩
  · rintro ⟨absent,cfg,kind,body,admitted,writes⟩
    exact ⟨cfg,kind,admitted,.inr ⟨absent,body,writes⟩⟩

/-- Where a store could still be opened, an initialisation without force is refused and changes nothing exactly when
the primary cell is there or the call fails a check before it writes the descriptor. -/
theorem openableKept (x : Host) (o : InitOptions) (draw : Draw) (s : State) {now : Instant} {d : Descriptor} {healed : Fs}
    (gentle : o.forceReinit = false) (opens : loadCanonicalDescriptor x.codec o.hashRegistry now s.fs = .ok (d,healed)) :
    (initStore x o draw s).2.refusal.isSome = true ∧ Same s (initStore x o draw s).1 ↔
      (s.fs.lookup primary).isSome = true ∨
        ¬ ∃ cfg kind body, Admitted o cfg kind ∧ Writes x o draw cfg kind body := by
  have spares : (s.fs.lookup primary).isSome = true ∨
      (¬ ∃ cfg kind body, Admitted o cfg kind ∧ Writes x o draw cfg kind body) ↔ ¬ Touches x o draw s := by
    rw [gentleTouches gentle,not_and_or,← ne_eq,Option.ne_none_iff_isSome]
  rw [spares]
  have ended := initEnded x o draw s
  generalize initStore x o draw s = result at ended ⊢
  cases ended with
  | refused r spared => exact iff_of_true ⟨rfl,fun _ => rfl,rfl⟩ spared
  | panicked _ cause =>
    rcases cause with unread | missing
    · exact absurd unread (loadedReads opens)
    · have given := loadedRegistry opens
      rw [missing] at given
      cases given
  | wiped touches found s' outcome gone =>
    refine iff_of_false ?_ (not_not.mpr touches)
    rintro ⟨_,same⟩
    rw [← same.1 primary,gone] at found
    cases found
  | written touches _ _ s' outcome there =>
    refine iff_of_false ?_ (not_not.mpr touches)
    rintro ⟨_,same⟩
    rw [same.1 primary,((gentleTouches gentle).mp touches).1] at there
    cases there
  | created touches s' session desc => exact iff_of_false (fun h => by cases h.1) (not_not.mpr touches)

def shadowOnly : State := ⟨LocalFs.put ∅ (cellFile StoreDescriptor.backupName) [7] 0,SqliteIndex.Index.empty⟩

theorem shadowOverwritten :
    (loadCanonicalDescriptor sampleHost.codec (some sampleHashes) 1 shadowOnly.fs).map Prod.fst =
      .ok ⟨"s1",1,1,[7],false,none⟩ ∧
    (initStore sampleHost (sampleOptions .plain false) sampleDraw shadowOnly).2.created = true ∧
    (initStore sampleHost (sampleOptions .plain false) sampleDraw shadowOnly).1.fs.lookup
      (cellFile StoreDescriptor.backupName) = some ⟨[8],5,5⟩ := by
  decide +kernel

theorem bothKept :
    let s : State := {shadowOnly with fs := LocalFs.put shadowOnly.fs primary [7] 0}
    (initStore sampleHost (sampleOptions .plain false) sampleDraw s).2.refusal.isSome = true ∧
      Same s (initStore sampleHost (sampleOptions .plain false) sampleDraw s).1 := by
  intro s
  exact (openableKept sampleHost (sampleOptions .plain false) sampleDraw s rfl
    (show loadCanonicalDescriptor sampleHost.codec (some sampleHashes) 1 s.fs = .ok (⟨"s1",1,1,[7],false,none⟩,s.fs) from
      rfl)).mpr (.inl (by decide +kernel))

end Scrinium.InitStore
