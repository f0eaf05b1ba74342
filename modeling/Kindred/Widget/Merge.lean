import Kindred.Widget.Contacts
import Kindred.Lib.Dialogue

/-!
From an anonymous visitor to a contact. An identifier that the visitor has
proven finds the contact that has it; one that is only typed is a claim and
stays with the visitor's own contact.
-/

namespace Kindred.Widget
open Lib (Dialogue)
open Lib.Dialogue (query)

abbrev Program (α : Type) := Dialogue Ask Reply α

abbrev Attempt (α : Type) := ExceptT String (Dialogue Ask Reply) α

def inquire (q : Ask) : Program (Reply q) := query q

def ask (q : Ask) : Attempt (Reply q) := ExceptT.lift (inquire q)

structure MergeOptions where
  visitorId : String
  name : Option String := none
  email : Option String := none
  phone : Option String := none
  verifiedStoreIdentity : Bool := false
  verifiedIdentifiers : Bool := false
  method : String := "prechat"
  ipAddress : Option String := none
  cfCountry : Option String := none

/-- `own` and `foundBy` are no part of the program's result: the visitor's own contact, and the
identifier that the contact was found by. -/
structure MergeResult where
  contactId : Id
  conversationsMerged : ℕ
  isNewContact : Bool
  own : Option Id
  foundBy : Option (IdentifierColumn × String)
  deriving DecidableEq

namespace MergeOptions

def proven (o : MergeOptions) : Bool := o.verifiedStoreIdentity || o.verifiedIdentifiers

end MergeOptions

def normalizeEmail (letters : Letters) (v : Option String) : Option String :=
  (v.map fun v => letters.toLowerCase (Rest.trim v)).filter fun s => s ≠ ""

def persianDigits : List Char := "۰۱۲۳۴۵۶۷۸۹".toList

def arabicDigits : List Char := "٠١٢٣٤٥٦٧٨٩".toList

def toAsciiDigit (c : Char) : Char :=
  match persianDigits.idxOf? c, arabicDigits.idxOf? c with
  | some i, _ => Nat.digitChar i
  | none, some i => Nat.digitChar i
  | none, none => c

def normalizePhone (v : Option String) : Option String :=
  (v.map fun v => String.ofList ((v.toList.map toAsciiDigit).filter fun c => c.isDigit || c = '+'))
    |>.filter fun s => 4 ≤ s.length

def MergeOptions.identifiers (letters : Letters) (o : MergeOptions) : Identifiers where
  email := normalizeEmail letters o.email
  phone := normalizePhone o.phone

def MergeOptions.givenName (o : MergeOptions) : Option String :=
  (o.name.map Rest.trim).filter fun s => s ≠ ""

def isClaimOnly (m : Metadata) (column : IdentifierColumn) (value : String) : Bool :=
  m.unverified.get column = some value

def identifierColumns : List IdentifierColumn := [.email, .phone]

structure Found where
  id : Id
  column : IdentifierColumn
  value : String

/-- The loop of `findContactByProvenIdentifiers`. -/
def provenHolder (ids : Identifiers) (own : Option Id) :
    List IdentifierColumn → Attempt (Option Found)
  | [] => pure none
  | column :: columns =>
    match ids.get column with
    | none => provenHolder ids own columns
    | some value => do
      match ← ask (.holder column value) with
      | none => provenHolder ids own columns
      | some holder =>
        if some holder.id ≠ own ∧ isClaimOnly holder.metadata column value then
          match ← ask (.release column holder.id) with
          | .error e => throw ("claim_release_failed: " ++ e.message)
          | .ok () => provenHolder ids own columns
        else pure (some ⟨holder.id, column, value⟩)

def findContactByProvenIdentifiers (ids : Identifiers) (own : Option Id) :
    Attempt (Option Found) :=
  provenHolder ids own identifierColumns

/-- `columns`: what may be written to the columns; `claims`: what the metadata is to tell. -/
structure Placement where
  columns : Identifiers := {}
  claims : Identifiers := {}

def Placement.place (out : Placement) (own : Option Id) (column : IdentifierColumn)
    (value : String) : Option Holder → Placement
  | some holder =>
    if some holder.id = own then
      { columns := out.columns.set column (some value)
        claims := if isClaimOnly holder.metadata column value then
          out.claims.set column (some value) else out.claims }
    else { out with claims := out.claims.set column (some value) }
  | none =>
    { columns := out.columns.set column (some value)
      claims := out.claims.set column (some value) }

/-- The loop of `placeUnverifiedIdentifiers`. -/
def placeColumns (ids : Identifiers) (own : Option Id) (out : Placement) :
    List IdentifierColumn → Program Placement
  | [] => pure out
  | column :: columns =>
    match ids.get column with
    | none => placeColumns ids own out columns
    | some value => do
      let holder ← inquire (.holder column value)
      placeColumns ids own (out.place own column value holder) columns

def placeUnverifiedIdentifiers (ids : Identifiers) (own : Option Id) : Program Placement :=
  placeColumns ids own {} identifierColumns

def backfillVisitorCode (contactId : Id) : ℕ → Program Unit
  | 0 => pure ()
  | attempts + 1 => do
    let code ← inquire .code
    match ← inquire (.fillCode contactId code) with
    | .error e =>
      if e.isVisitorCodeConflict then backfillVisitorCode contactId attempts else pure ()
    | .ok true => pure ()
    | .ok false => do
      let _ ← inquire (.readCode contactId)
      pure ()

def maxAttempts : ℕ := 5

def insertContactWithVisitorCode (buildPayload : Option String → Contact) :
    ℕ → Program (Except DbError Id)
  | 0 => do
    match ← inquire (.insert (buildPayload none)) with
    | .error e => pure (.error e)
    | .ok id => do
      backfillVisitorCode id maxAttempts
      pure (.ok id)
  | attempts + 1 => do
    let code ← inquire .code
    match ← inquire (.insert (buildPayload (some code))) with
    | .error e =>
      if e.isVisitorCodeConflict then insertContactWithVisitorCode buildPayload attempts
      else pure (.error e)
    | .ok id => pure (.ok id)

def findContactByVisitorId (visitorId : String) : Program (Option Id) := do
  match ← inquire (.visitorSession visitorId) with
  | some contact => pure (some contact)
  | none => inquire (.visitorContact visitorId)

def newContact (o : MergeOptions) (ip : Option String) (geo : Location)
    (claims columns : Identifiers) (visitorCode : Option String) : Contact where
  name := o.givenName
  identifiers := columns
  visitorCode := visitorCode
  metadata :=
    { visitorId := some o.visitorId, source := some "widget", firstMethod := some o.method
      firstIp := ip, unverified := claims, location := geo }

def createContact (o : MergeOptions) (ip : Option String) (geo : Location) (p : Placement) :
    Attempt Id := do
  match ← ExceptT.lift
      (insertContactWithVisitorCode (newContact o ip geo p.claims p.columns) maxAttempts) with
  | .ok id => pure id
  | .error e =>
    if !o.proven && e.isContactIdentityConflict then
      match ← ExceptT.lift
          (insertContactWithVisitorCode (newContact o ip geo p.claims {}) maxAttempts) with
      | .ok id => pure id
      | .error e => throw ("contact_insert_failed: " ++ e.message)
    else throw ("contact_insert_failed: " ++ e.message)

def truthy (s : Option String) : Bool := s.getD "" ≠ ""

/-- `precisionRank` -/
def precisionRank (level : Option String) : ℕ :=
  match level with
  | some "city" => 4
  | some "region" => 3
  | some "country" => 2
  | some "centroid" => 1
  | _ => 0

def geoFill (stored geo : Location) : Location :=
  let hasLocation := truthy stored.city || truthy stored.country
  let mayUpgrade := hasLocation &&
    precisionRank stored.locationPrecision < precisionRank geo.locationPrecision
  let take (old new : Option String) : Option String :=
    if truthy new && (!truthy old || mayUpgrade) then new else none
  let fill : Location :=
    { city := take stored.city geo.city, country := take stored.country geo.country
      countryCode := take stored.countryCode geo.countryCode
      countryFlag := take stored.countryFlag geo.countryFlag }
  if fill ≠ {} ∧ truthy geo.locationPrecision then
    { fill with locationPrecision := geo.locationPrecision, locationSource := geo.locationSource }
  else fill

def Location.filledWith (stored fill : Location) : Location where
  city := fill.city.or stored.city
  country := fill.country.or stored.country
  countryCode := fill.countryCode.or stored.countryCode
  countryFlag := fill.countryFlag.or stored.countryFlag
  locationPrecision := fill.locationPrecision.or stored.locationPrecision
  locationSource := fill.locationSource.or stored.locationSource

def claimsAfter (proven : Bool) (ids claims before : Identifiers) : Identifiers :=
  let after (column : IdentifierColumn) : Option String :=
    if proven then
      if (ids.get column).isSome ∧ before.get column = ids.get column then none
      else before.get column
    else (claims.get column).or (before.get column)
  ⟨after .email, after .phone⟩

/-- What is updated of a contact that there is: only what is empty so far. -/
def updatesFor (letters : Letters) (o : MergeOptions) (geo : Location) (p : Placement)
    (existing : Option Contact) : Updates :=
  let ids := o.identifiers letters
  let hasRealName := existing.any fun c => truthy c.name && c.name ≠ some "Visitor"
  let meta_ := (existing.map Contact.metadata).getD {}
  let free (column : IdentifierColumn) : Option String :=
    if existing.any fun c => !truthy (c.identifiers.get column) then p.columns.get column else none
  let unverified := claimsAfter o.proven ids p.claims meta_.unverified
  let fill := geoFill meta_.location geo
  let identified := o.givenName.isSome || ids.email.isSome || ids.phone.isSome
  { name := if existing.isSome ∧ !hasRealName then o.givenName else none
    identifiers := ⟨free .email, free .phone⟩
    metadata :=
      if !truthy meta_.visitorId ∨ fill ≠ {} ∨ (identified ∧ meta_.anonymous) ∨
          unverified ≠ meta_.unverified then
        some { meta_ with
          visitorId := some o.visitorId
          location := meta_.location.filledWith fill
          unverified
          anonymous := meta_.anonymous && !identified }
      else none }

def sendUpdates (o : MergeOptions) (contactId : Id) (u : Updates) :
    Attempt Unit := do
  if u = {} then pure ()
  else
    match ← ask (.update contactId u) with
    | .ok () => pure ()
    | .error e =>
      if !o.proven && e.isContactIdentityConflict then
        match ← ask (.update contactId { u with identifiers := {} }) with
        | .ok () => pure ()
        | .error e => throw ("contact_update_failed: " ++ e.message)
      else throw ("contact_update_failed: " ++ e.message)

def updateContact (letters : Letters) (o : MergeOptions) (geo : Location) (p : Placement)
    (contactId : Id) : Attempt Unit := do
  let existing ← ask (.existing contactId)
  sendUpdates o contactId (updatesFor letters o geo p existing)
  if existing.all fun c => !truthy c.visitorCode then
    ExceptT.lift (backfillVisitorCode contactId maxAttempts)

def repointVisitorToContact (visitorId : String) (fromContact toContact : Id) :
    Attempt Unit := do
  let sessionIds ← ask (.sessionIds visitorId)
  match ← ask (.repointSessions visitorId fromContact toContact) with
  | .error e => throw ("session_repoint_failed: " ++ e.message)
  | .ok () =>
    if sessionIds = [] then pure ()
    else
      match ← ask (.repointConversations fromContact toContact sessionIds) with
      | .error e => throw ("conversation_repoint_failed: " ++ e.message)
      | .ok () => pure ()

def moveOwn (o : MergeOptions) (own : Option Id) (contactId : Id) : Attempt Unit :=
  match own with
  | some ownId =>
    if o.proven ∧ ownId ≠ contactId then repointVisitorToContact o.visitorId ownId contactId
    else pure ()
  | none => pure ()

def linkVisitor (o : MergeOptions) (own : Option Id) (found : Option Found) (isNewContact : Bool)
    (contactId : Id) : Attempt MergeResult := do
  moveOwn o own contactId
  match ← ask (.merge o.visitorId contactId) with
  | .error e => throw ("merge_failed: " ++ e.message)
  | .ok conversationsMerged =>
    pure { contactId, conversationsMerged, isNewContact, own
           foundBy := found.map fun f => (f.column, f.value) }

/-- What comes once it is known which contact it is to be: `own` is the visitor's own one. -/
def mergeInto (letters : Letters) (o : MergeOptions) (ip : Option String) (geo : Location)
    (own : Option Id) (found : Option Found) (p : Placement) : Attempt MergeResult :=
  match (found.map Found.id).or own with
  | none => do
    let contactId ← createContact o ip geo p
    linkVisitor o own found true contactId
  | some contactId => do
    updateContact letters o geo p contactId
    linkVisitor o own found false contactId

def mergeWithOwn (letters : Letters) (o : MergeOptions) (ip : Option String) (geo : Location)
    (own : Option Id) : Attempt MergeResult :=
  let ids := o.identifiers letters
  if o.proven then do
    let found ← findContactByProvenIdentifiers ids own
    mergeInto letters o ip geo own found { columns := ids }
  else do
    let p ← ExceptT.lift (placeUnverifiedIdentifiers ids own)
    mergeInto letters o ip geo own none p

def mergeVisitorIdentity (letters : Letters) (o : MergeOptions) :
    Attempt MergeResult := do
  let mayStoreRawIp ← ask .storeRawIp
  let ip := if mayStoreRawIp then o.ipAddress.filter fun s => s ≠ "" else none
  let geo ← ask (.geo o.visitorId o.cfCountry)
  let own ← ExceptT.lift (findContactByVisitorId o.visitorId)
  mergeWithOwn letters o ip geo own

end Kindred.Widget
