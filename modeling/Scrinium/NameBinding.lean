import Scrinium.ManifestRoundTrip
import Scrinium.SystemNames

/-! What binds a system artifact to its name: nothing, since neither the manifest nor the envelope holds it. -/
namespace Scrinium.SystemStore
open Keyed Domain LocalFs Named Trace
open StoreDescriptor (Halt inlineManifest)
open Config (ManifestCrypto)
open ManifestCodec (Writer KeyProvider Draws Provides Coded Reads decodeEncrypted encode decodeFile fileLength Shallow Flat Dated
  JsonBody bodyWith sampleForms sampleWriting sampleHashes zeroDraws sampleLawful)

variable {ε : Type} {x r} {σ : State ε} {a name path body}

theorem activeReplaced (active : activePath σ.fs name = .ok path) (there : path ∈ σ.fs) (body : Bytes) (now : Instant) :
    activePath (LocalFs.put σ.fs path body now) name = .ok path := by
  have same : ∀ seq, seq ∈ scanSeqs (LocalFs.put σ.fs path body now) name ↔ seq ∈ scanSeqs σ.fs name := by
    intro seq
    rw [scanPut,scanMem]
    refine and_congr_right fun _ => and_congr_right fun _ => or_iff_right_of_imp fun here => ?_
    rw [here]
    exact there
  have top : activeSeq (scanSeqs (LocalFs.put σ.fs path body now) name) = activeSeq (scanSeqs σ.fs name) := by
    rw [activeSeqMax,activeSeqMax]
    refine Option.ext fun seq => ?_
    simp only [List.max?_eq_some_iff,same]
  rw [activePath,resolveActiveSeq,top]
  exact active

/- The artifact can be read at all: its file is within the limit, its time within what the decoder parses, and its
external payload, if it points to one, is there. -/
def Readable (r : Resolver ε) (external : ε) (a : NamedArtifact) (body : Bytes) : Prop :=
  body.length ≤ Cas.maxManifestSize ∧ a.now < year10000 ∧ (a.externalRef ≠ "" → ∃ payload, r.openExternal external a.externalRef = .ok payload)

theorem shallowEmpty {w} (lawful : w.Lawful) : Shallow w [] [] := by
  rw [Shallow,lawful.absent]
  decide

/-- A file that Put wrote for one name, copied over the file of another: Get of that other name fails exactly where the
artifact cannot be read under its own name either. -/
theorem copiedFileFailsExactly {ε : Type} {x : Host} {r : Resolver ε} {σ : State ε} {a : NamedArtifact} {name path : String}
    {body : Bytes} {w : Writer} {keys : KeyProvider} {crypto : ManifestCrypto} {dek keyID : Bytes} {draws : Draws}
    (lawful : w.Lawful) (provides : Provides w keys crypto dek keyID) (sound : Sound x)
    (decodes : x.codec.decode = decodeEncrypted w.toLibrary keys)
    (encodes : a.encode = fun m => encode w m .json crypto dek keyID draws)
    (json : ∀ h bytes header b rest, x.hashes x.contentHasher = some h → envelopeBytes x a = .ok bytes →
      Coded w (inlineManifest h a.name bytes x.contentHasher a.now) dek header draws crypto b rest → Reads w b)
    (active : activePath σ.fs name = .ok path) (there : path ∈ σ.fs) (written : prepare x a = .ok body) (now : Instant) :
    (∃ halt, get x r {σ with fs := LocalFs.put σ.fs path body now} name = .error halt) ↔ ¬ Readable r σ.external a body := by
  have active' := activeReplaced active there body now
  have found : (LocalFs.put σ.fs path body now).lookup path = some ⟨body,now,now⟩ := AList.lookup_insert _
  obtain ⟨_,payload,bytes,h,read,wrapped,known,made,enveloped⟩ := preparedOk written
  rw [encodes] at made
  obtain ⟨good,bad⟩ := decodeFile lawful made provides fun header b rest coded => json h bytes header b rest known enveloped coded
  rw [← fileLength lawful made,← decodes] at good bad
  have flat : Flat w crypto (inlineManifest h a.name bytes x.contentHasher a.now) := .inr (shallowEmpty lawful)
  have dated : Dated (inlineManifest h a.name bytes x.contentHasher a.now) ↔ a.now < year10000 := by
    simp [Dated,inlineManifest]
  rw [dated] at good bad
  by_cases fits : body.length ≤ Cas.maxManifestSize ∧ a.now < year10000
  · obtain ⟨ext,usr,_,_,decoded⟩ := good ⟨fits.1,flat,fits.2⟩
    obtain ⟨m,payload,loaded,opened,read⟩ := preparedLoads sound written fits.1 (fun {h' data} known' _ enveloped' => by
      cases Option.some.inj (known.symm.trans known')
      cases Except.ok.inj (enveloped.symm.trans enveloped')
      exact ⟨_,decoded,rfl,rfl,rfl,rfl⟩) ⟨now,now,found⟩
    have value := getAt (r := r) (σ := {σ with fs := LocalFs.put σ.fs path body now}) active'
      ⟨m,a.envelope x payload,loaded,opened,(envelopeValue σ.external read).symm⟩
    rw [value,Readable,and_iff_right fits.1,and_iff_right fits.2,valueOf]
    by_cases pointer : a.externalRef ≠ ""
    · rw [if_pos pointer]
      cases r.openExternal σ.external a.externalRef with
      | ok payload => simp
      | error halt => simp [pointer]
    · rw [if_neg pointer,read (not_not.mp pointer)]
      simp [pointer,Except.mapError]
  · have failed : ∃ halt, StoreDescriptor.load x.codec (some x.hashes) (LocalFs.put σ.fs path body now) path = .error halt := by
      rw [StoreDescriptor.load,found]
      by_cases large : Cas.maxManifestSize < body.length
      · exact ⟨_,if_pos large⟩
      · obtain ⟨err,refused⟩ := bad fun both => fits ⟨both.1,both.2.2⟩
        simp only [if_neg large,refused]
        exact ⟨_,rfl⟩
    obtain ⟨halt,failed⟩ := failed
    refine iff_of_true ⟨halt,?_⟩ fun readable => fits ⟨readable.1,readable.2.1⟩
    simp only [get,loadEnvelope,loadActive,active',Except.mapError,bind,Except.bind,failed]

def copyDocument (data : Bytes) : JsonBody :=
  bodyWith sampleForms
    (inlineManifest ⟨"sha256",fun b => [0,b.length.toUInt8],Pipeline.pairLong⟩ "" data "sha256" second) [] []

def copyWriter : Writer := sampleWriting [copyDocument [0,1],copyDocument [0,7]]

def copyHost : Host :=
  {sampleHost with
    codec := {sampleHost.codec with decode := decodeEncrypted copyWriter.toLibrary none}
    hashes := sampleHashes, contentHasher := "sha256"}

def copyArtifact (name : String) (payload : Bytes) : NamedArtifact :=
  ⟨name,.ok payload,"",none,fun m => encode copyWriter m .json .plain [] [] zeroDraws,second⟩

def copyState : State (List String) := (put copyHost ⟨∅,[]⟩ (copyArtifact "a" [1])).1

theorem copyAnswers :
    get copyHost sampleResolver copyState "a" = .ok [1] ∧
      (do let body ← prepare copyHost (copyArtifact "b" [7])
          get copyHost sampleResolver {copyState with fs := LocalFs.put copyState.fs (versionFile "a" 1) body 5} "a") = .ok [7] := by
  decide +kernel

theorem copyReadable : ∃ body, prepare copyHost (copyArtifact "b" [7]) = .ok body ∧
    ¬ ∃ halt, get copyHost sampleResolver {copyState with fs := LocalFs.put copyState.fs (versionFile "a" 1) body 5} "a" =
      .error halt := by
  have sound : Sound copyHost := ⟨sampleSound.identified,sampleSound.parsed⟩
  have accepted : (prepare copyHost (copyArtifact "b" [7])).toOption.any (fun body => body.length ≤ Cas.maxManifestSize) = true := by
    decide +kernel
  cases written : prepare copyHost (copyArtifact "b" [7]) with
  | error halt =>
    rw [written] at accepted
    cases accepted
  | ok body =>
    rw [written] at accepted
    refine ⟨body,rfl,fun fails => ?_⟩
    refine (copiedFileFailsExactly (sampleLawful _) (fun secret => absurd rfl secret) sound rfl rfl ?_
      (by decide +kernel) (by decide +kernel) written 5).mp fails ⟨of_decide_eq_true accepted,by decide,fun pointer => absurd rfl pointer⟩
    intro h bytes header b rest known enveloped coded
    cases Option.some.inj known
    cases Except.ok.inj enveloped
    cases coded with
    | plain first second =>
      cases Except.ok.inj first
      cases Except.ok.inj second
      exact ⟨fun _ => by decide +kernel,fun deep => absurd ⟨by decide,by decide⟩ deep⟩

end Scrinium.SystemStore
