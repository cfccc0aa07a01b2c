import Scrinium.ManifestRoundTrip

/-! The places of an encrypted manifest: the three blocks of a Sealed body and the whole Paranoid body. -/
namespace Scrinium.ManifestCodec
open Domain Config Trace List

inductive Place where
  | ext
  | usr
  | inlineBlob
  | body
  deriving DecidableEq

namespace Place

def mode : Place → ManifestCrypto
  | .body => .paranoid
  | _ => .sealed

def aad (header : Bytes) : Place → Bytes
  | .ext => blockAAD header aadTagExt
  | .usr => blockAAD header aadTagUsr
  | .inlineBlob => blockAAD header aadTagInline
  | .body => header

def suffix : Place → Bytes
  | .ext => 0x00::aadTagExt
  | .usr => 0x00::aadTagUsr
  | .inlineBlob => 0x00::aadTagInline
  | .body => []

theorem aadSuffix (place : Place) (header : Bytes) : place.aad header = header ++ place.suffix := by
  cases place <;> simp [aad,suffix,blockAAD]

/- encodeSealed and encodeParanoid put ct in this place of the manifest's file. -/
def Sealed (w : Writer) (m : Manifest) (dek header : Bytes) (draws : Draws) (ct : Bytes) : Place → Prop
  | .ext => m.ext ≠ [] ∧ sealBlock w m.ext dek header aadTagExt draws.ext = .ok ct
  | .usr => m.usr ≠ [] ∧ sealBlock w m.usr dek header aadTagUsr draws.usr = .ok ct
  | .inlineBlob => m.inlineBlob ≠ [] ∧ sealBlock w m.inlineBlob dek header aadTagInline draws.inlineBlob = .ok ct
  | .body => ∃ json, marshalBodyJSON w m = .ok json ∧ sealBody w json dek draws.body header = .ok ct

def Holding (lib : Library) (ct field : Bytes) : Prop :=
  field ≠ [] ∧ ∃ text, lib.parseText field = some text ∧ lib.base64 text = some ct

def Carries (lib : Library) (body ct : Bytes) : Place → Prop
  | .ext => ∃ m, unmarshalBodyJSON lib body = .ok m ∧ Holding lib ct m.ext
  | .usr => ∃ m, unmarshalBodyJSON lib body = .ok m ∧ Holding lib ct m.usr
  | .inlineBlob => ∃ m, unmarshalBodyJSON lib body = .ok m ∧ m.inlineBlob = ct
  | .body => body = ct

end Place

def Writer.Ideal (w : Writer) : Prop :=
  ∀ {dek nonce plain aad box}, w.sealBox dek nonce plain aad = some box →
    ∀ {key other opened}, w.openBox key nonce box other = some opened → other = aad

structure Headed (crypto : ManifestCrypto) (keyID header : Bytes) : Prop where
  short : keyID.length ≤ maxKeyIDLength
  bytes : header = magicJSON ++ [cryptoFlag crypto,keyID.length.toUInt8] ++ keyID

section
variable {w : Writer} {place q : Place} {keyID keyID' header header' : Bytes}
theorem writtenHeaded {encoding} (wrote : writeHeader w encoding place.mode keyID = .ok header) :
    encoding = .json ∧ Headed place.mode keyID header := by
  have secret : place.mode ≠ .plain := by cases place <;> decide
  have keyed : headerKey place.mode keyID = keyID := by rw [headerKey,if_neg secret]
  rcases headerOk (keyed.symm ▸ wrote) with ⟨plain,_⟩ | ⟨_,short,_,bytes⟩
  · exact absurd plain secret
  · cases encoding with
    | json => exact ⟨rfl,short,bytes⟩
    | binary => cases wrote

theorem placeInjective (headed : Headed place.mode keyID header) (headed' : Headed q.mode keyID' header')
    (same : q.aad header' = place.aad header) : q = place ∧ header' = header ∧ keyID' = keyID := by
  rw [q.aadSuffix,place.aadSuffix,headed.bytes,headed'.bytes] at same
  simp only [append_assoc,append_cancel_left_eq,cons_append,nil_append,cons.injEq] at same
  obtain ⟨flag,len,rest⟩ := same
  have lengths : keyID'.length = keyID.length := by
    have nat := congrArg UInt8.toNat len
    have short := headed.short
    have short' := headed'.short
    simp only [UInt8.toNat_ofNat',maxKeyIDLength] at nat short short'
    omega
  obtain ⟨sameKey,sameSuffix⟩ := append_inj rest lengths
  have samePlace : q = place := by
    cases q <;> cases place <;> first | rfl | exact absurd sameSuffix (by decide)
  subst samePlace sameKey
  exact ⟨rfl,headed'.bytes.trans headed.bytes.symm,rfl⟩

theorem magicOk {magic encoding} (ok : magicEncoding magic = .ok encoding) : magic = magicJSON := by
  unfold magicEncoding at ok
  split at ok
  · assumption
  · split at ok <;> cases ok

theorem flagOk {flag crypto} (ok : cryptoFromFlag flag = .ok crypto) : flag = cryptoFlag crypto := by
  unfold cryptoFromFlag at ok
  repeat' split at ok
  all_goals cases ok
  all_goals assumption

theorem acceptedHeaded {lib data head offset} (read : readHeader lib data = .ok (head,offset)) (secret : head.crypto ≠ .plain) :
    Headed head.crypto head.keyID (data.take offset) := by
  unfold readHeader at read
  split at read
  · cases read
  obtain ⟨encoding,magic,read⟩ := bindOk.mp read
  obtain ⟨crypto,flag,read⟩ := bindOk.mp read
  split at read
  next plain =>
    cases Except.ok.inj read
    exact absurd plain secret
  split at read
  · cases read
  next long =>
  rcases data with _ | ⟨a,_ | ⟨b,_ | ⟨c,_ | ⟨d,_ | ⟨e,_ | ⟨n,rest⟩⟩⟩⟩⟩⟩
  all_goals try (simp at long; done)
  dsimp only at read
  split at read
  · cases read
  next whole =>
  split at read
  · cases Except.ok.inj read
    have few : n.toNat ≤ rest.length := by
      simp only [getD_cons_succ,getD_cons_zero,length_cons] at whole
      omega
    have size : (rest.take n.toNat).length = n.toNat := length_take_of_le few
    have four : [a,b,c,d] = magicJSON := magicOk magic
    have fifth : e = cryptoFlag crypto := flagOk flag
    refine ⟨?_,?_⟩
    · have := n.toNat_lt
      simp only [getD_cons_succ,getD_cons_zero,drop_succ_cons,drop_zero,size,maxKeyIDLength]
      omega
    · simp only [getD_cons_succ,getD_cons_zero,drop_succ_cons,drop_zero,size,← four,← fifth]
      simp [Nat.add_comm 6]
  · cases read

theorem decryptElsewhere {plain dek nonce aad ct other} (ideal : w.Ideal) (sealed : sealBody w plain dek nonce aad = .ok ct)
    (differs : other ≠ aad) (candidates : List Bytes) :
    tryDecrypt w.toLibrary ct candidates other = .error (.other "scrinium: decryption failed") := by
  obtain ⟨box,made,rfl⟩ := sealBodyOk sealed
  have closed : candidates.findSome? (fun key => (openBody w.toLibrary (nonce.bytes ++ box) key other).toOption) = none := by
    rw [findSome?_eq_none_iff]
    intro key _
    unfold openBody
    split
    · rfl
    rw [← nonce.long,take_left,drop_left]
    cases opened : w.openBox key nonce.bytes box other with
    | none => rfl
    | some _ => exact absurd (ideal made opened) differs
  rw [tryDecrypt,closed]

theorem sealedBody {m dek draws ct} (sealed : place.Sealed w m dek header draws ct) :
    ∃ plain nonce, sealBody w plain dek nonce (place.aad header) = .ok ct := by
  cases place with
  | body =>
    obtain ⟨json,_,made⟩ := sealed
    exact ⟨json,_,made⟩
  | _ =>
    obtain ⟨full,made⟩ := sealed
    rw [sealBlock,if_neg full] at made
    exact ⟨_,_,made⟩

theorem sealedOpens {lib body candidates m out} (read : unmarshalBodyJSON lib body = .ok m)
    (done : decodeSealed lib body candidates header = .ok out) :
    (∃ ext, openSealedBlock lib m.ext candidates header aadTagExt = .ok ext) ∧
      (∃ usr, openSealedBlock lib m.usr candidates header aadTagUsr = .ok usr) ∧
      ∃ blob, openInlineBlob lib m.inlineBlob candidates header = .ok blob := by
  obtain ⟨_,again,done⟩ := bindOk.mp done
  cases okSame read again
  obtain ⟨ext,first,done⟩ := bindOk.mp done
  obtain ⟨usr,second,done⟩ := bindOk.mp done
  obtain ⟨blob,third,_⟩ := bindOk.mp done
  exact ⟨⟨ext,first⟩,⟨usr,second⟩,blob,third⟩

theorem carriedFails {plain dek nonce aad ct body} (ideal : w.Ideal) (sealed : sealBody w plain dek nonce aad = .ok ct)
    (carries : q.Carries w.toLibrary body ct) (differs : q.aad header ≠ aad) (candidates : List Bytes) {out} :
    decodeEncryptedBody w.toLibrary q.mode body candidates header ≠ .ok out := by
  intro done
  have fails := decryptElsewhere ideal sealed differs candidates
  cases q with
  | body =>
    subst carries
    obtain ⟨_,opened,_⟩ := bindOk.mp done
    cases fails.symm.trans opened
  | ext =>
    obtain ⟨m,read,full,text,parsed,decoded⟩ := carries
    obtain ⟨_,opened⟩ := (sealedOpens read done).1
    simp only [openSealedBlock,if_neg full,openSealedField,parsed,decoded] at opened
    cases fails.symm.trans opened
  | usr =>
    obtain ⟨m,read,full,text,parsed,decoded⟩ := carries
    obtain ⟨_,opened⟩ := (sealedOpens read done).2.1
    simp only [openSealedBlock,if_neg full,openSealedField,parsed,decoded] at opened
    cases fails.symm.trans opened
  | inlineBlob =>
    obtain ⟨m,read,held⟩ := carries
    obtain ⟨_,opened⟩ := (sealedOpens read done).2.2
    have full : ct ≠ [] := by
      obtain ⟨box,_,rfl⟩ := sealBodyOk sealed
      have long := nonce.long
      rintro empty
      rw [(append_eq_nil_iff.mp empty).1] at long
      cases long
    rw [openInlineBlob,held,if_neg full] at opened
    cases fails.symm.trans opened

/-- The additional data determines the place, the mode, the encoding and the KeyID. Under an ideal AEAD a file
that carries a sealed block or a Paranoid body in any other place or under any other header does not decode. -/
theorem blocksKeepPlace {encoding m dek draws ct} (ideal : w.Ideal) (wrote : writeHeader w encoding place.mode keyID = .ok header)
    (sealed : place.Sealed w m dek header draws ct) :
    (∀ q encoding' keyID' header', writeHeader w encoding' (Place.mode q) keyID' = .ok header' → q.aad header' = place.aad header →
      q = place ∧ encoding' = encoding ∧ keyID' = keyID ∧ header' = header) ∧
    ∀ q keys data head offset, readHeader w.toLibrary data = .ok (head,offset) → head.crypto = Place.mode q →
      q.Carries w.toLibrary (data.drop offset) ct → (q,data.take offset) ≠ (place,header) →
      ∃ err, decodeEncrypted w.toLibrary keys data = .error err := by
  obtain ⟨json,headed⟩ := writtenHeaded wrote
  refine ⟨?_,?_⟩
  · intro q encoding' keyID' header' wrote' same
    obtain ⟨json',headed'⟩ := writtenHeaded wrote'
    obtain ⟨samePlace,sameHeader,sameKey⟩ := placeInjective headed headed' same
    exact ⟨samePlace,json'.trans json.symm,sameKey,sameHeader⟩
  · intro q keys data head offset read moded carries moved
    obtain ⟨plain,nonce,made⟩ := sealedBody sealed
    have secret : head.crypto ≠ .plain := by
      rw [moded]
      cases q <;> decide
    have differs : q.aad (data.take offset) ≠ place.aad header := by
      intro same
      obtain ⟨samePlace,sameHeader,_⟩ := placeInjective headed (moded ▸ acceptedHeaded read secret) same
      exact moved (by rw [samePlace,sameHeader])
    cases done : decodeEncrypted w.toLibrary keys data with
    | error err => exact ⟨err,rfl⟩
    | ok out =>
      unfold decodeEncrypted at done
      split at done
      · cases done
      rw [read] at done
      change decodeUnder w.toLibrary keys head _ _ = .ok out at done
      unfold decodeUnder at done
      rw [if_neg secret] at done
      split at done
      · cases done
      obtain ⟨candidates,_,done⟩ := bindOk.mp done
      split at done
      · cases done
      rw [moded] at done
      exact absurd done (carriedFails ideal made carries differs candidates)

end

def sampleBox : Writer :=
  {sampleForms with
    openBox := fun _ _ box aad => if aad = magicJSON ++ [0x02,1,7] then some box else none
    sealBox := fun _ _ plain aad => if aad = magicJSON ++ [0x02,1,7] then some plain else none}

theorem sampleIdeal : sampleBox.Ideal := by
  intro dek nonce plain aad box made key other out opened
  simp only [sampleBox,Option.ite_none_right_eq_some] at made opened
  exact opened.1.trans made.1.symm

theorem paranoidBodyStays :
    let nonce : Nonce := ⟨replicate nonceLen 0,rfl⟩
    let ct := nonce.bytes ++ bodyText (bodyWith sampleBox systemManifest [] [])
    ∃ err, decodeEncrypted sampleBox.toLibrary (some fun _ => .ok [[1]]) (magicJSON ++ [0x02,1,8] ++ ct) = .error err := by
  intro nonce ct
  have wrote : writeHeader sampleBox .json Place.body.mode [7] = .ok (magicJSON ++ [0x02,1,7]) := rfl
  have moved : readHeader sampleBox.toLibrary (magicJSON ++ [0x02,1,8] ++ ct) = .ok (⟨.paranoid,[8]⟩,7) := rfl
  have sealed : Place.Sealed sampleBox systemManifest [1] (magicJSON ++ [0x02,1,7]) ⟨nonce,nonce,nonce,nonce⟩ ct .body := ⟨_,rfl,rfl⟩
  exact (blocksKeepPlace sampleIdeal wrote sealed).2 .body _ _ _ _ moved rfl rfl fun same => absurd (congrArg Prod.snd same) (by decide)

end Scrinium.ManifestCodec
