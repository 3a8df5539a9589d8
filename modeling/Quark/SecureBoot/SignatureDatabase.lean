import Quark.Base.Efi
import Quark.Machine.LittleEndian

/-!
# Signature databases

`SecureBootVariable.c`: a signature database is a variable with signature lists one behind the other, each
with a header and signatures of one size. Certificates are appended, looked for and deleted by walks over
the lists. The sizes that drive a walk are those in the data; pointers into a buffer are offsets.
-/

namespace Quark.SecureBoot

open Machine

/-- Why a walk does not come to its end. -/
inductive WalkFault where
  | outOfBounds
  | divideByZero
  /-- The walk makes no more progress. -/
  | unfinished
  deriving DecidableEq, Repr

def inside {α : Type} : Option α → Except WalkFault α
  | some a => .ok a
  | none => .error .outOfBounds

structure Guid where
  bytes : List Byte
  length_bytes : bytes.length = 16
  deriving DecidableEq

/-- `sizeof (EFI_SIGNATURE_LIST)`: the type, and the sizes of the list, of its header and of a signature. -/
def sizeofSignatureList : Nat := 28

/-- `sizeof (EFI_SIGNATURE_DATA) - 1`, the size of the owner. -/
def sizeofSignatureOwner : Nat := 16

/-- `EFI_VARIABLE_TIME_BASED_AUTHENTICATED_WRITE_ACCESS`. -/
def timeBasedAccess : BitVec 32 := 0x20

def appendWrite : BitVec 32 := 0x40

/-! ## The variable -/

structure SignatureVariable where
  attributes : BitVec 32
  data : List Byte
  no_append : attributes &&& appendWrite = 0
  data_ne : data ≠ []
  size_lt : data.length < 0x100000000
  deriving DecidableEq

/-- The buffers that are allocated from the pool. -/
inductive PoolBuffer where
  | oldData
  | data
  | payload
  | setData
  | findContext
  deriving DecidableEq, Repr

/-- What the services answer: which buffers are allocated, the first bytes of the time if there is one, and
the error of a variable that may not be set. -/
structure Services where
  allocates : PoolBuffer → Bool
  time : Option (Fin 7 → Byte)
  refusal : EfiStatus

/-- The size of `EFI_VARIABLE_AUTHENTICATION_2` in front of the data: the time, and `dwLength` bytes. -/
def authenticationSize (data : List Byte) : Nat := 16 + leValue ((data.drop 16).take 4)

def appendTo (old : SignatureVariable) (payload : List Byte) : EfiStatus × Option SignatureVariable :=
  if size_lt : (old.data ++ payload).length < 0x100000000 then
    (.success, some ⟨old.attributes, old.data ++ payload, old.no_append,
      List.append_ne_nil_of_left_ne_nil old.data_ne payload, size_lt⟩)
  else
    (.outOfResources, some old)

def replaceBy (attributes : BitVec 32) (payload : List Byte) (store : Option SignatureVariable) :
    EfiStatus × Option SignatureVariable :=
  if data_ne : payload ≠ [] then
    if size_lt : payload.length < 0x100000000 then
      (.success, some ⟨attributes &&& ~~~appendWrite, payload, by rw [BitVec.and_assoc]; simp, data_ne, size_lt⟩)
    else
      (.outOfResources, store)
  else
    (if store.isSome then .success else .notFound, none)

/-- `gRT->SetVariable`. Data with authentication are what follows it. -/
def setVariable (services : Services) (attributes : BitVec 32) (data : List Byte)
    (store : Option SignatureVariable) : EfiStatus × Option SignatureVariable :=
  if services.refusal ≠ .success then
    (services.refusal, store)
  else
    let payload :=
      if attributes &&& timeBasedAccess ≠ 0 then data.drop (authenticationSize data) else data
    match store with
    | some old =>
      if attributes &&& appendWrite ≠ 0 then appendTo old payload else replaceBy attributes payload (some old)
    | none => replaceBy attributes payload none

def gEfiCertPkcs7Guid : List Byte :=
  [0x9D, 0xD2, 0xAF, 0x4A, 0xDF, 0x68, 0xEE, 0x49, 0x8A, 0xA9, 0x34, 0x7D, 0x37, 0x56, 0x65, 0xA7]

/-- `DescriptorData`: the time with its padding cleared, and a certificate without data. -/
def descriptorData (services : Services) : List Byte :=
  (match services.time with
    | some time => List.ofFn time
    | none => List.replicate 7 0) ++ List.replicate 9 0 ++ leBytes 4 24 ++ leBytes 2 0x0200 ++
      leBytes 2 0x0EF1 ++ gEfiCertPkcs7Guid

def setupCreateTimeBasedAuthVarPayload (services : Services) (payload : List Byte) :
    Except WalkFault (Except EfiStatus (List Byte)) := do
  let descriptorSize := 40
  if services.allocates .payload = false then
    pure (.error .outOfResources)
  else do
    let newData := List.replicate ((descriptorSize + payload.length) % 0x100000000) (0 : Byte)
    let newData ← if payload = [] then pure newData else inside (put? newData descriptorSize payload)
    let newData ← inside (put? newData 0 (descriptorData services))
    pure (.ok newData)

def setupSetTimeBasedAuthVariable (services : Services) (attributes : BitVec 32) (data : List Byte)
    (appendIfExists : Bool) (store : Option SignatureVariable) :
    Except WalkFault (EfiStatus × Option SignatureVariable) := do
  match ← setupCreateTimeBasedAuthVarPayload services data with
  | .error status => pure (status, store)
  | .ok descAndData =>
    let attributes := if store.isSome ∧ appendIfExists then attributes ||| appendWrite else attributes
    pure (setVariable services attributes descAndData store)

/-! ## The fields of a list -/

/-- `SignatureListSize` of the list at an offset. -/
def signatureListSize (buffer : List Byte) (list : Nat) : Except WalkFault Nat :=
  inside (word? 4 buffer (list + 16))

def signatureHeaderSize (buffer : List Byte) (list : Nat) : Except WalkFault Nat :=
  inside (word? 4 buffer (list + 20))

def signatureSize (buffer : List Byte) (list : Nat) : Except WalkFault Nat :=
  inside (word? 4 buffer (list + 24))

/-- A difference of two `UINT32`. -/
def sub32 (a b : Nat) : Nat := (a + (0x100000000 - b % 0x100000000)) % 0x100000000

def certCount (buffer : List Byte) (list : Nat) : Except WalkFault Nat := do
  let listSize ← signatureListSize buffer list
  let headerSize ← signatureHeaderSize buffer list
  let size ← signatureSize buffer list
  if size = 0 then .error .divideByZero
  else pure (sub32 (sub32 listSize sizeofSignatureList) headerSize / size)

/-! ## `SetupDeleteCert` -/

/-- The locals of the first walk: the place in `OldData`, what is left there, the buffer `Data` and the place
in it. -/
structure EraseLocals where
  certList : Nat
  itemDataSize : Nat
  data : List Byte
  offset : Nat
  isItemFound : Bool

/-- The loop over the certificates of a list, from the one at `cert` on. -/
def eraseCerts (signatureOwner oldData : List Byte) (newCertList size : Nat) :
    Nat → Nat → EraseLocals → Except WalkFault EraseLocals
  | 0, _, l => pure l
  | count + 1, cert, l => do
    let owner ← inside (bytes? 16 oldData cert)
    if owner = signatureOwner then do
      let listSize ← signatureListSize l.data newCertList
      let data ← inside (put? l.data (newCertList + 16) (leBytes 4 (sub32 listSize size)))
      eraseCerts signatureOwner oldData newCertList size count (cert + size)
        { l with data, isItemFound := true }
    else do
      let signature ← inside (bytes? size oldData cert)
      let data ← inside (put? l.data l.offset signature)
      eraseCerts signatureOwner oldData newCertList size count (cert + size)
        { l with data, offset := (l.offset + size) % 0x100000000 }

/-- The first walk: all but the certificates of the owner are copied to `Data`. -/
def eraseLists (signatureOwner oldData : List Byte) : Nat → EraseLocals → Except WalkFault EraseLocals
  | 0, _ => .error .unfinished
  | n + 1, l =>
    if l.itemDataSize = 0 then pure l
    else do
      let listSize ← signatureListSize oldData l.certList
      if l.itemDataSize < listSize then pure l
      else do
        let fullDeleteOffset := l.offset
        let headerSize ← signatureHeaderSize oldData l.certList
        let header ← inside (bytes? ((sizeofSignatureList + headerSize) % 0x100000000) oldData l.certList)
        let data ← inside (put? l.data l.offset header)
        let count ← certCount oldData l.certList
        let size ← signatureSize oldData l.certList
        let l' ← eraseCerts signatureOwner oldData fullDeleteOffset size count
          (l.certList + sizeofSignatureList + headerSize)
          { l with data, offset := (l.offset + header.length) % 0x100000000 }
        let newListSize ← signatureListSize l'.data fullDeleteOffset
        eraseLists signatureOwner oldData n {
          certList := l.certList + listSize
          itemDataSize := l.itemDataSize - listSize
          data := l'.data
          offset := if newListSize ≤ sizeofSignatureList then fullDeleteOffset else l'.offset
          isItemFound := l'.isItemFound }

/-- The locals of the second walk: the place in `Data`, what is left there, the buffer `OldData` and the place
in it. -/
structure PackLocals where
  certList : Nat
  itemDataSize : Nat
  oldData : List Byte
  offset : Nat

/-- The second walk: the lists that have a certificate are copied to `OldData`. -/
def packLists (data : List Byte) : Nat → PackLocals → Except WalkFault PackLocals
  | 0, _ => .error .unfinished
  | n + 1, l =>
    if l.itemDataSize = 0 then pure l
    else do
      let listSize ← signatureListSize data l.certList
      if l.itemDataSize < listSize then pure l
      else do
        let count ← certCount data l.certList
        let l' ←
          if count ≠ 0 then do
            let list ← inside (bytes? listSize data l.certList)
            let oldData ← inside (put? l.oldData l.offset list)
            pure { l with oldData, offset := (l.offset + listSize) % 0x100000000 }
          else pure l
        packLists data n {
          l' with
          certList := l.certList + listSize
          itemDataSize := l.itemDataSize - listSize }

/-- The end of `SetupDeleteCert`: the first `dataSize` bytes of `OldData` become the variable. -/
def writeBack (services : Services) (v : SignatureVariable) (oldData : List Byte) (dataSize : Nat) :
    Except WalkFault (EfiStatus × Option SignatureVariable) := do
  let payload ← inside (bytes? dataSize oldData 0)
  if v.attributes &&& timeBasedAccess ≠ 0 then do
    match ← setupCreateTimeBasedAuthVarPayload services payload with
    | .error status => pure (status, some v)
    | .ok newData => pure (setVariable services v.attributes newData (some v))
  else if dataSize > 0 then
    pure (setVariable services v.attributes payload (some v))
  else
    pure (.success, some v)

/-- `SetupDeleteCert`. Each round of a walk that makes progress makes what is left smaller. -/
def setupDeleteCert (services : Services) (signatureOwner : Option Guid)
    (store : Option SignatureVariable) : Except WalkFault (EfiStatus × Option SignatureVariable) :=
  match signatureOwner, store with
  | none, _ => pure (.invalidParameter, store)
  | some _, none => pure (.notFound, store)
  | some owner, some v =>
    if services.allocates .oldData = false then pure (.outOfResources, store)
    else if services.allocates .data = false then pure (.outOfResources, store)
    else do
      let dataSize := v.data.length
      let erased ← eraseLists owner.bytes v.data (dataSize + 1)
        ⟨0, dataSize, List.replicate dataSize 0, 0, false⟩
      if erased.isItemFound = false then pure (.notFound, store)
      else do
        let oldData ← inside (put? v.data 0 (List.replicate erased.offset 0))
        let packed ← packLists erased.data (erased.offset + 1) ⟨0, erased.offset, oldData, 0⟩
        writeBack services v packed.oldData packed.offset

/-! ## `SetupAppendCert` -/

def setupAppendCert (services : Services) (certType signatureOwner : Option Guid) (sigData : List Byte)
    (store : Option SignatureVariable) : Except WalkFault (EfiStatus × Option SignatureVariable) :=
  match certType with
  | none => pure (.invalidParameter, store)
  | some certType =>
    if services.allocates .setData = false then pure (.outOfResources, store)
    else do
      let sigDBSize := (sizeofSignatureList + sizeofSignatureOwner + sigData.length) % 0x100000000
      let setData := List.replicate sigDBSize (0 : Byte)
      let setData ← inside (put? setData 16 (leBytes 4 sigDBSize))
      let setData ← inside (put? setData 20 (leBytes 4 0))
      let setData ← inside (put? setData 24 (leBytes 4 (sizeofSignatureOwner + sigData.length)))
      let setData ← inside (put? setData 0 certType.bytes)
      let setData ← match signatureOwner with
        | some owner => inside (put? setData sizeofSignatureList owner.bytes)
        | none => pure setData
      let setData ←
        if sigData.length > 0 then inside (put? setData (sizeofSignatureList + sizeofSignatureOwner) sigData)
        else pure setData
      -- non-volatile, with boot service and runtime access
      setupSetTimeBasedAuthVariable services (0x7 ||| timeBasedAccess) setData true store

/-! ## `FindFirstCert` and `FindNextCert` -/

structure FindCertFilter where
  signatureType : Option Guid
  signatureOwner : Option Guid
  signatureDataPayloadSize : Nat

/-- The loop of `CertMatch` over the certificates: where the first one of the owner is. -/
def findOwner (signatureOwner content : List Byte) (size : Nat) : Nat → Nat → Except WalkFault (Option Nat)
  | 0, _ => pure none
  | count + 1, cert => do
    let owner ← inside (bytes? 16 content cert)
    if owner = signatureOwner then pure (some cert)
    else findOwner signatureOwner content size count (cert + size)

def typeMatches (content : List Byte) (certList : Nat) (filter : FindCertFilter) : Except WalkFault Bool :=
  match filter.signatureType with
  | none => pure true
  | some signatureType => do
    let type ← inside (bytes? 16 content certList)
    pure (decide (type = signatureType.bytes))

/-- `CertMatch`: the number of certificates, or 0, and where `CallerCertData` is set to. -/
def certMatch (content : List Byte) (certList : Nat) (filter : Option FindCertFilter) :
    Except WalkFault (Nat × Option Nat) := do
  let headerSize ← signatureHeaderSize content certList
  let cert := certList + sizeofSignatureList + headerSize
  let count ← certCount content certList
  match filter with
  | none => pure (count, some cert)
  | some filter => do
    let sameType ← typeMatches content certList filter
    let size ← signatureSize content certList
    if sameType = false then pure (0, none)
    else if filter.signatureDataPayloadSize ≠ 0 ∧
        size ≠ (sizeofSignatureOwner + filter.signatureDataPayloadSize) % 0x100000000 then
      pure (0, none)
    else
      match filter.signatureOwner with
      | none => pure (count, some cert)
      | some owner => do
        match ← findOwner owner.bytes content size count cert with
        | some cert => pure (count, some cert)
        | none => pure (0, none)

/-- The loop of `FindNextCert`: the next list that matches, and its certificate. -/
def findNextFrom (content : List Byte) (filter : Option FindCertFilter) :
    Nat → Nat → Except WalkFault (Option (Nat × Option Nat))
  | 0, _ => .error .unfinished
  | n + 1, certList => do
    let listSize ← signatureListSize content certList
    if certList + listSize ≥ content.length then pure none
    else do
      let (count, cert) ← certMatch content (certList + listSize) filter
      if count = 0 then findNextFrom content filter n (certList + listSize)
      else pure (some (certList + listSize, cert))

/-- `FindNextCert`. Each list that has a size brings the walk closer to the end. -/
def findNextCert (content : List Byte) (filter : Option FindCertFilter) (currCertList : Nat) :
    Except WalkFault (Option (Nat × Option Nat)) :=
  findNextFrom content filter (content.length + 1) currCertList

def findFirstCert (services : Services) (filter : Option FindCertFilter)
    (store : Option SignatureVariable) : Except WalkFault (Option (Nat × Option Nat)) :=
  match store with
  | none => pure none
  | some v =>
    if services.allocates .findContext = false then pure none
    else do
      let (count, cert) ← certMatch v.data 0 filter
      if count = 0 then findNextCert v.data filter 0
      else pure (some (0, cert))

/-! ## What a signature database is -/

structure Signature where
  owner : Guid
  data : List Byte
  deriving DecidableEq

def Signature.bytes (signature : Signature) : List Byte := signature.owner.bytes ++ signature.data

/-- A signature list. All its signatures have `dataSize` bytes of data. -/
structure SignatureList where
  type : Guid
  header : List Byte
  dataSize : Nat
  signatures : List Signature
  same_size : ∀ signature ∈ signatures, signature.data.length = dataSize
  size_lt : sizeofSignatureOwner + dataSize < 0x100000000

def listHead (type : Guid) (listSize : Nat) (header : List Byte) (size : Nat) : List Byte :=
  type.bytes ++ (leBytes 4 listSize ++ (leBytes 4 header.length ++ (leBytes 4 size ++ header)))

structure EntryList where
  type : Guid
  header : List Byte
  entrySize : Nat
  entries : List (List Byte)
  same_size : ∀ entry ∈ entries, entry.length = entrySize
  size_pos : 0 < entrySize
  size_lt : entrySize < 0x100000000

namespace EntryList

def size (list : EntryList) : Nat :=
  sizeofSignatureList + list.header.length + list.entries.length * list.entrySize

def bytes (list : EntryList) : List Byte :=
  listHead list.type list.size list.header list.entrySize ++ list.entries.flatten

def bytesSized (list : EntryList) (extra : Nat) : List Byte :=
  listHead list.type (list.size + extra) list.header list.entrySize ++ list.entries.flatten

end EntryList

def listBytes (lists : List EntryList) : List Byte := lists.flatMap EntryList.bytes

namespace SignatureList

def entrySize (list : SignatureList) : Nat := sizeofSignatureOwner + list.dataSize

def size (list : SignatureList) : Nat :=
  sizeofSignatureList + list.header.length + list.signatures.length * list.entrySize

def bytes (list : SignatureList) : List Byte :=
  listHead list.type list.size list.header list.entrySize ++ list.signatures.flatMap Signature.bytes

def without (owner : Guid) (list : SignatureList) : SignatureList :=
  { list with
    signatures := list.signatures.filter fun signature => signature.owner ≠ owner
    same_size := fun signature h => list.same_size signature (List.mem_filter.mp h).1 }

end SignatureList

def databaseBytes (database : List SignatureList) : List Byte := database.flatMap SignatureList.bytes

def HasOwner (owner : Guid) (database : List SignatureList) : Prop :=
  ∃ list ∈ database, ∃ signature ∈ list.signatures, signature.owner = owner

/-- The database with the signatures of other owners, and without lists that have none. -/
def databaseWithout (owner : Guid) (database : List SignatureList) : List SignatureList :=
  (database.map (SignatureList.without owner)).filter fun list => list.signatures ≠ []

def contents (store : Option SignatureVariable) : List Byte := (store.map SignatureVariable.data).getD []

/-- The variable is a signature database. Its data and a descriptor in front of them have a size. -/
structure Holds (store : Option SignatureVariable) (database : List SignatureList) : Prop where
  contents_eq : contents store = databaseBytes database
  size_lt : 40 + (databaseBytes database).length < 0x100000000

/-- The deletion does not find the owner, or leaves the signatures of other owners if it succeeds. -/
def DeleteExact (services : Services) (owner : Guid) (database : List SignatureList)
    (store : Option SignatureVariable) : Prop :=
  ∃ status store', setupDeleteCert services (some owner) store = .ok (status, store') ∧
    (¬ HasOwner owner database → status = .notFound ∧ store' = store) ∧
    (HasOwner owner database → status = .success →
      contents store' = databaseBytes (databaseWithout owner database))

/-- Two buffers can be allocated if there is nothing to be deleted, and a variable without authentication has
something left if there is. -/
def DeleteClean (services : Services) (owner : Guid) (database : List SignatureList)
    (store : Option SignatureVariable) : Prop :=
  ∀ v, store = some v →
    (¬ HasOwner owner database → services.allocates .oldData = true ∧ services.allocates .data = true) ∧
    (HasOwner owner database → services.allocates .oldData = true → services.allocates .data = true →
      v.attributes &&& timeBasedAccess = 0 → databaseWithout owner database ≠ [])

/-! ## Appending and deleting -/

/-- The list that `SetupAppendCert` makes. -/
def newList (certType owner : Guid) (sigData : List Byte)
    (size_lt : sizeofSignatureOwner + sigData.length < 0x100000000) : SignatureList where
  type := certType
  header := []
  dataSize := sigData.length
  signatures := [⟨owner, sigData⟩]
  same_size := fun signature h => by rw [List.mem_singleton.mp h]
  size_lt

def Services.Willing (services : Services) : Prop :=
  (∀ buffer, services.allocates buffer = true) ∧ services.refusal = .success

def ownerFilter (owner : Guid) : FindCertFilter := ⟨none, some owner, 0⟩

/-- The first certificate of the owner is the signature behind the old contents, in a list of its own, and no
list after it has one. -/
def FindsAppended (services : Services) (certType owner : Guid) (sigData : List Byte)
    (store appended : Option SignatureVariable) : Prop :=
  ∃ certList cert, findFirstCert services (some (ownerFilter owner)) appended = .ok (some (certList, some cert)) ∧
    certList = (contents store).length ∧ cert = certList + sizeofSignatureList ∧
    (contents appended).drop cert = owner.bytes ++ sigData ∧
    contents appended = contents store ++
      (listHead certType (sizeofSignatureList + (sizeofSignatureOwner + sigData.length)) []
        (sizeofSignatureOwner + sigData.length) ++ (owner.bytes ++ sigData)) ∧
    findNextCert (contents appended) (some (ownerFilter owner)) certList = .ok none

/-- An appended signature is found, and its deletion brings the variable back. Neither call fails where there
is memory and the variable may be set. -/
def AppendDeleteInverse (services : Services) (certType owner : Guid) (sigData : List Byte)
    (store : Option SignatureVariable) : Prop :=
  ∃ status appended, setupAppendCert services (some certType) (some owner) sigData store =
      .ok (status, appended) ∧ (services.Willing → status = .success) ∧
    (status = .success →
      (services.allocates .findContext = true → FindsAppended services certType owner sigData store appended) ∧
      ∃ status' store', setupDeleteCert services (some owner) appended = .ok (status', store') ∧
        (services.Willing → status' = .success) ∧ (status' = .success → store' = store))

/-- The database is authenticated, has no empty list and no signature of the owner, and there is room for a
signature more. -/
structure Appendable (owner : Guid) (sigData : List Byte) (database : List SignatureList)
    (store : Option SignatureVariable) : Prop where
  holds : Holds store database
  authenticated : ∀ v, store = some v → v.attributes &&& timeBasedAccess ≠ 0
  not_empty : ∀ list ∈ database, list.signatures ≠ []
  absent : ¬ HasOwner owner database
  size_lt : 40 + ((databaseBytes database).length +
    (sizeofSignatureList + (sizeofSignatureOwner + sigData.length))) < 0x100000000

/-! ## Safe walks -/

/-- The lists that `FindFirstCert` and `FindNextCert` give. -/
inductive Found (v : SignatureVariable) : Nat → Prop where
  | first {services : Services} {filter : Option FindCertFilter} {certList : Nat} {cert : Option Nat}
      (h : findFirstCert services filter (some v) = .ok (some (certList, cert))) : Found v certList
  | next {filter : Option FindCertFilter} {currCertList certList : Nat} {cert : Option Nat}
      (hfound : Found v currCertList)
      (h : findNextCert v.data filter currCertList = .ok (some (certList, cert))) : Found v certList

def field (bytes : List Byte) (off : Nat) : Nat := leValue ((bytes.drop off).take 4)

/-- The owners of all entries from `pos` on are inside. -/
def OwnersInside (length : Nat) : Nat → List EntryList → Prop
  | _, [] => True
  | pos, list :: lists =>
    (list.entries ≠ [] → pos + sizeofSignatureList + list.header.length +
      (list.entries.length - 1) * list.entrySize + 16 ≤ length) ∧ OwnersInside length (pos + list.size) lists

/-- A header is inside, its certificates have a size, and the owners of all that it counts are inside. -/
structure ListInside (content : List Byte) (pos : Nat) : Prop where
  header : pos + sizeofSignatureList ≤ content.length
  size_pos : 0 < field content (pos + 24)
  owners : ∀ i < sub32 (sub32 (field content (pos + 16)) sizeofSignatureList) (field content (pos + 20)) /
      field content (pos + 24),
    pos + sizeofSignatureList + field content (pos + 20) + i * field content (pos + 24) + 16 ≤ content.length

/-- From a list on, the walk comes by lists that are inside. -/
inductive Walk (content : List Byte) : Nat → Prop where
  | last {pos : Nat} (hinside : ListInside content pos) (hend : content.length ≤ pos + field content (pos + 16)) :
      Walk content pos
  | next {pos : Nat} (hinside : ListInside content pos) (hpos : 0 < field content (pos + 16))
      (hrest : Walk content (pos + field content (pos + 16))) : Walk content pos

end Quark.SecureBoot
