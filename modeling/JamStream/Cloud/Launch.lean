import JamStream.Cloud.Ec2
import JamStream.Cloud.Firewalls
import JamStream.Cloud.Retention
import JamStream.Server.Revocations

/-! The launch of a session's machine: the requests that come before its create, and the create,
sent again while what comes of it may pass. A listing is one request. -/

namespace JamStream.Cloud
open Foundations Command

inductive Platform
  | aws
  | digitalOcean
  | gcp
deriving DecidableEq

def awsRegions : List RegionId :=
  ["us-east-1", "us-east-2", "us-west-1", "us-west-2", "eu-west-1", "eu-central-1",
    "ca-central-1", "sa-east-1"]

def digitalOceanCatalog : List RegionId :=
  ["nyc1", "nyc3", "atl1", "sfo3", "tor1", "lon1", "ams3", "fra1", "syd1", "sgp1", "blr1"]

def gcpCatalog : List RegionId :=
  ["us-central1", "us-east1", "us-east4", "us-west1", "us-west2", "northamerica-northeast1",
    "europe-west1", "europe-west2", "europe-west3"]

def bareTag : String := "jamstream"
def markerLabelKey : String := "jamstream"
def escapePrefix : String := "x--"
def maxLabelLen : ℕ := 63
def debian12Arm64Param : String := "/aws/service/debian/release/12/latest/arm64"

inductive Request
  | getParameter (region : RegionId)
  | createSecurityGroup (region : RegionId) (name : String) (tags : List (String × String))
  | describeSecurityGroups (region : RegionId) (name : String)
  | authorizeSecurityGroupIngress (region : RegionId) (groupId : String)
  | runInstances (region : RegionId) (imageId groupId : String) (tags : List (String × String))
  | createTag (name : String)
  | createFirewall (body : FirewallBody)
  | listFirewalls
  | listImages
  | createDroplet (name : String) (region : RegionId) (image : String) (tags : List String)
  | insertFirewall (body : FirewallBody)
  | insertInstance (zone name networkTag : String) (labels : List (String × String))

namespace Request

def creates : Request → Bool
  | runInstances _ _ _ _ => true
  | createDroplet _ _ _ _ => true
  | insertInstance _ _ _ _ => true
  | _ => false

end Request

/-- A machine as its provider keeps it. A tag on DigitalOcean has no value. -/
structure Vm where
  zone : String
  name : String
  tags : List (String × String)
deriving DecidableEq

/-- A provider: what carrying out a request does and is answered with, and its machines. -/
structure Api (ω : Type) where
  execute : ω → Request → ω × Response
  machines : ω → List Vm

def Response.isSuccess (response : Response) : Prop :=
  200 ≤ response.status ∧ response.status < 300

/-- One machine more, of the tags asked for, and an answer that says so. -/
def Api.Adds {ω : Type} (api : Api ω) (s : ω) (request : Request)
    (tags : List (String × String)) : Prop :=
  (∃ vm : Vm, vm.tags = tags ∧
    api.machines (api.execute s request).1 = api.machines s ++ [vm]) ∧
  (api.execute s request).2.isSuccess

/-- What the providers document: RunInstances without a client token and a droplet create make
a machine each time they are carried out, an insert makes none where its zone has one of that
name, and nothing else makes any. -/
structure Api.Documented {ω : Type} (api : Api ω) : Prop where
  others : ∀ s request, request.creates = false →
    api.machines (api.execute s request).1 = api.machines s
  runInstances : ∀ s region imageId groupId tags,
    api.Adds s (.runInstances region imageId groupId tags) tags
  createDroplet : ∀ s name region image tags,
    api.Adds s (.createDroplet name region image tags) (tags.map fun tag => (tag, ""))
  insertTaken : ∀ s zone name networkTag labels,
    (∃ vm ∈ api.machines s, vm.zone = zone ∧ vm.name = name) →
      api.machines (api.execute s (.insertInstance zone name networkTag labels)).1 =
        api.machines s
  insertNew : ∀ s zone name networkTag labels,
    (¬∃ vm ∈ api.machines s, vm.zone = zone ∧ vm.name = name) →
      ∃ vm : Vm, vm.zone = zone ∧ vm.name = name ∧
        api.machines (api.execute s (.insertInstance zone name networkTag labels)).1 =
          api.machines s ++ [vm]

/-- What becomes of an attempt: it is carried out and its answer arrives, or something else
comes back, whether it was carried out or not. -/
inductive Passage
  | answered
  | lost (executed : Bool) (reply : Reply)

namespace Passage

def executed : Passage → Bool
  | answered => true
  | lost executed _ => executed

/-- A create whose answer arrives is not sent again. -/
def retried : Passage → Bool
  | answered => false
  | lost _ reply => reply.retried

end Passage

inductive Call
  | ami
  | group
  | findGroup
  | ingress
  | tag
  | firewall (name : String)
  | firewalls
  | images
  | machine
deriving DecidableEq

/-- What a launch finds: the provider, what becomes of each attempt at each of its requests,
what it has cached or bundled, its clock, its tokens, and the readers of JSON. -/
structure Surroundings (ω : Type) where
  api : Api ω
  passage : Call → ℕ → Passage
  cachedAmi : Option String
  bundledAmi : RegionId → Option String
  cachedImage : Option String
  nanos : UInt64
  seq : UInt64
  tokens : ℕ → Except ProviderError Unit
  debug : String → String
  parameter : String → Except String String
  firewall : Response → Except String String
  firewallList : Response → Except String (List (String × String))
  imageList : Response → Except String (List (Option String))
  dropletId : Response → Except String String
  rejection : String → Option String
  operation : Response → Except String (Option String)

section names

/-- A part of a tag as a label of GCP's: as it is, or its bytes in hex. -/
def labelEncode (debug : String → String) (raw : String) : Except ProviderError String :=
  let passes (c : Char) : Bool := c.isLower || c.isDigit || c = '-'
  let passthrough := raw.toList.head?.any Char.isLower && raw.toList.all passes &&
    !startsWith raw escapePrefix
  let encoded := if passthrough then raw
    else escapePrefix ++ String.ofList (raw.toUTF8.toList.flatMap Server.hexByte)
  if maxLabelLen < encoded.utf8ByteSize then
    .error (.other ("tag component " ++ debug raw ++ " encodes to " ++
      toString encoded.utf8ByteSize ++ " characters; gcp labels cap at " ++
      toString maxLabelLen))
  else .ok encoded

def networkTag (debug : String → String) (session : String) : Except ProviderError String := do
  let encoded ← labelEncode debug session
  let tag := firewallPrefix ++ encoded
  if maxLabelLen < tag.utf8ByteSize then
    .error (.other ("session id " ++ debug session ++ " makes a " ++
      toString tag.utf8ByteSize ++ "-character network tag; gcp caps at " ++
      toString maxLabelLen))
  else .ok tag

def sessionFirewallBodies (debug : String → String) (session : String) :
    Except ProviderError (List FirewallBody) := do
  let tag ← networkTag debug session
  match (firewallBodies tag).find? fun body => maxLabelLen < body.name.utf8ByteSize with
  | some body => .error (.other ("gcp firewall name " ++ debug body.name ++ " is " ++
      toString body.name.utf8ByteSize ++ " characters; the cap is " ++ toString maxLabelLen))
  | none => .ok (firewallBodies tag)

def insertLabel (labels : List (String × String)) (label : String × String) :
    List (String × String) :=
  (labels.filter fun l => l.1 ≠ label.1) ++ [label]

/-- The labels of a machine: its tags, and the marker of every launch. -/
def labelsOf (debug : String → String) (tags : List (String × String)) :
    Except ProviderError (List (String × String)) := do
  let labels ← tags.mapM fun tag => do
    let key ← labelEncode debug tag.1
    let value ← labelEncode debug tag.2
    pure (key, value)
  pure (insertLabel (labels.foldl insertLabel []) (markerLabelKey, "true"))

def lowerHex (n : UInt64) : String := String.ofList (Nat.toDigits 16 n.toNat)

def generateName (nanos seq : UInt64) : String :=
  "jamstream-" ++ lowerHex nanos ++ "-" ++ lowerHex seq

def defaultZone (region : RegionId) : String := region ++ "-b"

def groupName (session : String) : String := "jamstream-" ++ session

def dropletName (session : String) : String :=
  String.ofList (("jamstream-" ++ session).toList.map fun c =>
    if c.isAlphanum || c = '.' || c = '-' then c else '-')

def debianRelease (slug : String) : Option ℕ := do
  let rest ← stripPrefix slug "debian-"
  let reversed ← stripPrefix (String.ofList rest.toList.reverse) "46x-"
  let text := reversed.toList.reverse
  let digits := if text.head? = some '+' then text.tail else text
  let value := Nat.ofDigitChars 10 digits 0
  if digits.isEmpty || digits.any (fun c => !c.isDigit) || 2 ^ 32 ≤ value then none
  else some value

/-- The slug of the highest release, the last of them where several have it. -/
def newestDebian (slugs : List String) : Option String :=
  (slugs.foldl (fun (best : Option (ℕ × String)) slug =>
    match debianRelease slug, best with
    | none, _ => best
    | some n, none => some (n, slug)
    | some n, some b => if b.1 ≤ n then some (n, slug) else best) none).map Prod.snd

def noSession (machine : String) : ProviderError :=
  .other ("launch spec has no " ++ sessionTagKey ++ " tag; refusing to create " ++ machine ++
    " the sweeper cannot find")

/-- The id of the first instance of an EC2 answer. -/
def instanceIdOf (xml : List Char) : Option String :=
  match _h : splitFirst "<instanceId>".toList xml with
  | none => none
  | some (_, after) =>
    let chunk := ((splitFirst "<instanceId>".toList after).map Prod.fst).getD after
    match splitFirst "</instanceId>".toList chunk with
    | some (id, _) => some (String.ofList (xmlUnescape id))
    | none => instanceIdOf after
termination_by xml.length
decreasing_by
  have hlength := length_of_splitFirst _h
  have hpat : 0 < "<instanceId>".toList.length := by decide
  omega

end names

namespace Surroundings
variable {ω : Type} (x : Surroundings ω)

def send (call : Call) (request : Request) (attempt : ℕ) (s : ω) : Reply × ω :=
  match x.passage call attempt with
  | .answered => (.response (x.api.execute s request).2, (x.api.execute s request).1)
  | .lost executed reply => (reply, if executed then (x.api.execute s request).1 else s)

section aws

def resolveAmi (region : RegionId) : Command ω ProviderError String :=
  match x.cachedAmi with
  | some ami => pure ami
  | none => do
    let response ← sendRetrying (x.send .ami (.getParameter region))
    answer do
      let text ← response.text.mapError fun e =>
        .other ("reading GetParameter response: " ++ e)
      let ami ← (x.parameter text).mapError fun e =>
        .other ("GetParameter response parse: " ++ e)
      if startsWith ami "ami-" then .ok ami
      else .error (.other ("GetParameter for " ++ debian12Arm64Param ++
        " returned a non-AMI value " ++ x.debug ami))

def findGroup (region : RegionId) (session : String) :
    Command ω ProviderError (Option String) := do
  let body ← ec2Call "DescribeSecurityGroups"
    (x.send .findGroup (.describeSecurityGroups region (groupName session)))
  pure (xmlText body "groupId")

/-- The group is the one just created, or that of an earlier launch of the session. -/
def groupIdOf (region : RegionId) (session : String) :
    Except ProviderError String → Command ω ProviderError String
  | .ok body => answer ((xmlText body "groupId").elim
      (.error (.other "CreateSecurityGroup response contained no groupId")) .ok)
  | .error error =>
    if errorCode error = some "InvalidGroup.Duplicate" then do
      let found ← x.findGroup region session
      answer (found.elim (.error (.other ("security group " ++ groupName session ++
        " exists but cannot be found"))) .ok)
    else throw error

def authorized : Except ProviderError String → Except ProviderError Unit
  | .ok _ => .ok ()
  | .error error =>
    if errorCode error = some "InvalidPermission.Duplicate" then .ok () else .error error

def ensureGroup (region : RegionId) (session : String) (tags : List (String × String)) :
    Command ω ProviderError String := do
  let created ← attempt (ec2Call "CreateSecurityGroup"
    (x.send .group (.createSecurityGroup region (groupName session) tags)))
  let groupId ← x.groupIdOf region session created
  let opened ← attempt (ec2Call "AuthorizeSecurityGroupIngress"
    (x.send .ingress (.authorizeSecurityGroupIngress region groupId)))
  answer (authorized opened)
  pure groupId

def awsSpec (spec : LaunchSpec) : Except ProviderError (String × String) :=
  if !awsRegions.contains spec.region then .error (.notFound ("aws region " ++ spec.region))
  else match spec.sessionId, x.bundledAmi spec.region with
    | none, _ => .error (noSession "an instance")
    | some _, none => .error (.notFound ("no aws image data for region " ++ spec.region))
    | some session, some ami => .ok (session, ami)

def awsPrepare (spec : LaunchSpec) : Command ω ProviderError Request := do
  let (session, bundled) ← answer (x.awsSpec spec)
  let resolved ← attempt (x.resolveAmi spec.region)
  let ami := resolved.toOption.getD bundled
  let groupId ← ExceptT.adapt (ProviderError.whileDoing "creating the session security group")
    (x.ensureGroup spec.region session spec.tags)
  pure (.runInstances spec.region ami groupId spec.tags)

def awsCreate (request : Request) : Command ω ProviderError String := do
  let body ← ExceptT.adapt (ProviderError.whileDoing "launching the instance")
    (ec2Call "RunInstances" (x.send .machine request))
  answer ((instanceIdOf body.toList).elim
    (.error (.other "RunInstances response contained no instanceId")) .ok)

end aws

section digitalOcean

def tagged : Except ProviderError Response → Except ProviderError Unit
  | .ok _ => .ok ()
  | .error (.other message) =>
    if hasText message "http 422" then .ok () else .error (.other message)
  | .error error => .error error

def ensureTag (tag : String) : Command ω ProviderError Unit := do
  let sent ← attempt (sendRetrying (x.send .tag (.createTag tag)))
  answer (tagged sent)

/-- The firewall is the one just created, or that of an earlier launch of the session. -/
def firewallIdOf (session : String) :
    Except ProviderError Response → Command ω ProviderError String
  | .ok response => answer ((x.firewall response).mapError fun e =>
      .other ("digitalocean response decode: " ++ e))
  | .error (.other message) =>
    if hasText message "http 422" then do
      let response ← sendRetrying (x.send .firewalls .listFirewalls)
      let firewalls ← answer ((x.firewallList response).mapError .other)
      answer (((firewalls.find? fun f => f.1 = firewallName session).map Prod.snd).elim
        (.error (.other message)) .ok)
    else throw (.other message)
  | .error error => throw error

def ensureFirewall (session : String) : Command ω ProviderError String := do
  x.ensureTag (sessionDoTag session)
  let body := ⟨firewallName session, sessionDoTag session⟩
  let sent ← attempt (sendRetrying (x.send (.firewall body.name) (.createFirewall body)))
  x.firewallIdOf session sent

def image : Command ω ProviderError String :=
  match x.cachedImage with
  | some image => pure image
  | none => do
    let response ← sendRetrying (x.send .images .listImages)
    answer do
      let slugs ← (x.imageList response).mapError .other
      (newestDebian slugs.reduceOption).elim (.error (.other ("digitalocean lists no " ++
        "debian-N-x64 distribution image; cannot pick a boot image"))) .ok

def digitalOceanSpec (spec : LaunchSpec) : Except ProviderError String :=
  if digitalOceanCatalog.contains spec.region then
    spec.sessionId.elim (.error (noSession "a droplet")) .ok
  else .error (.notFound ("digitalocean region " ++ spec.region))

def digitalOceanPrepare (spec : LaunchSpec) : Command ω ProviderError Request := do
  let session ← answer (digitalOceanSpec spec)
  let _ ← ExceptT.adapt (ProviderError.whileDoing "creating the session firewall")
    (x.ensureFirewall session)
  let image ← ExceptT.adapt (ProviderError.whileDoing "picking the boot image") x.image
  pure (.createDroplet (dropletName session) spec.region image
    (bareTag :: spec.tags.map fun tag => toDoTag tag.1 tag.2))

/-- What the API says of a create it rejects is shown as it is. -/
def createError (error : ProviderError) : ProviderError :=
  match error with
  | .other message =>
    if hasText message "http 422" then
      match (errorBody error).bind x.rejection with
      | some detail => .other ("digitalocean rejected droplet create: " ++ detail)
      | none => .other ("digitalocean rejected droplet create (invalid region, size, or " ++
          "image): " ++ message)
    else error.whileDoing "creating the droplet"
  | _ => error.whileDoing "creating the droplet"

def digitalOceanCreate (request : Request) : Command ω ProviderError String := do
  let response ← ExceptT.adapt x.createError (sendRetrying (x.send .machine request))
  answer ((x.dropletId response).mapError fun e =>
    .other ("digitalocean response decode: " ++ e))

end digitalOcean

section gcp

def inserted (name : String) : Except ProviderError Response → Except ProviderError Unit
  | .ok response => do
    let failure ← (x.operation response).mapError fun e =>
      .other ("gcp firewall response parse: " ++ e)
    match failure with
    | some error => .error (.other ("gcp firewall insert failed for " ++ name ++ ": " ++ error))
    | none => .ok ()
  | .error (.other message) =>
    if hasText message "http 409" then .ok () else .error (.other message)
  | .error error => .error error

def insertFirewall (body : FirewallBody) : Command ω ProviderError Unit := do
  let sent ← attempt (sendRetrying (x.send (.firewall body.name) (.insertFirewall body)))
  answer (x.inserted body.name sent)

def ensureFirewalls (session : String) : Command ω ProviderError Unit := do
  answer (x.tokens 0)
  let bodies ← answer (sessionFirewallBodies x.debug session)
  bodies.forM x.insertFirewall

def launchBody (spec : LaunchSpec) :
    Except ProviderError (List (String × String) × String × String) := do
  let labels ← labelsOf x.debug spec.tags
  let session ← spec.sessionId.elim (.error (noSession "an instance")) .ok
  let tag ← networkTag x.debug session
  pure (labels, session, tag)

def gcpSpec (spec : LaunchSpec) :
    Except ProviderError (List (String × String) × String × String) :=
  if gcpCatalog.contains spec.region then x.launchBody spec
  else .error (.notFound ("unknown gcp region " ++ spec.region))

def gcpPrepare (spec : LaunchSpec) : Command ω ProviderError Request := do
  let (labels, session, tag) ← answer (x.gcpSpec spec)
  x.ensureFirewalls session
  answer (x.tokens 1)
  pure (.insertInstance (defaultZone spec.region) (generateName x.nanos x.seq) tag labels)

def gcpCreate (request : Request) : Command ω ProviderError String := do
  let response ← sendRetrying (x.send .machine request)
  answer do
    let failure ← (x.operation response).mapError fun e =>
      .other ("gcp operation response parse: " ++ e)
    match failure with
    | some error => .error (.other ("gcp insert operation failed: " ++ error))
    | none => .ok (generateName x.nanos x.seq)

end gcp

def prepare (platform : Platform) (spec : LaunchSpec) : Command ω ProviderError Request :=
  match platform with
  | .aws => x.awsPrepare spec
  | .digitalOcean => x.digitalOceanPrepare spec
  | .gcp => x.gcpPrepare spec

def create (platform : Platform) (request : Request) : Command ω ProviderError String :=
  match platform with
  | .aws => x.awsCreate request
  | .digitalOcean => x.digitalOceanCreate request
  | .gcp => x.gcpCreate request

def launch (platform : Platform) (spec : LaunchSpec) : Command ω ProviderError String := do
  let request ← x.prepare platform spec
  x.create platform request

def sessionMark (platform : Platform) (session : String) : String × String :=
  match platform with
  | .aws => (sessionTagKey, session)
  | .digitalOcean => (sessionDoTag session, "")
  | .gcp => (((labelEncode x.debug sessionTagKey).toOption.getD ""),
      ((labelEncode x.debug session).toOption.getD ""))

def tally (platform : Platform) (session : String) (s : ω) : ℕ :=
  (x.api.machines s).countP fun vm => vm.tags.contains (x.sessionMark platform session)

/-- The attempts at the create that a launch makes if it comes to it. -/
def createAttempts : List ℕ :=
  Attempts.made (fun k => (x.passage .machine k).retried) (maxAttempts - 1) 0

def Comes (platform : Platform) (spec : LaunchSpec) (s : ω) : Prop :=
  ∃ request t, (x.prepare platform spec).ends s = (.ok request, t)

/-! ## What comes before the create -/

variable {x : Surroundings ω} {request : Request} {spec : LaunchSpec}

theorem send_cases (call : Call) (request : Request) (k : ℕ) (s : ω) :
    (x.send call request k s).2 =
      if (x.passage call k).executed then (x.api.execute s request).1 else s := by
  unfold send
  rcases x.passage call k with _ | ⟨executed, reply⟩
  · rfl
  · rfl

theorem keeps_sendRetrying (hdoc : x.api.Documented) (call : Call)
    (hrequest : request.creates = false) :
    Keeps x.api.machines (sendRetrying (x.send call request)) := by
  intro s
  apply Attempts.retrying_invariant (P := fun t => x.api.machines t = x.api.machines s)
  · intro k t ht
    show x.api.machines (x.send call request k t).2 = _
    rw [send_cases]
    split_ifs
    · rw [hdoc.others t request hrequest, ht]
    · exact ht
  · rfl

theorem keeps_ec2Call (hdoc : x.api.Documented) (action : String) (call : Call)
    (hrequest : request.creates = false) :
    Keeps x.api.machines (ec2Call action (x.send call request)) :=
  keeps_bind (keeps_adapt remapped (keeps_sendRetrying hdoc call hrequest)) fun _ =>
    keeps_answer _

theorem keeps_resolveAmi (hdoc : x.api.Documented) (region : RegionId) :
    Keeps x.api.machines (x.resolveAmi region) := by
  unfold resolveAmi
  split
  · exact keeps_pure _
  · exact keeps_bind (keeps_sendRetrying hdoc .ami rfl) fun _ => keeps_answer _

theorem keeps_groupIdOf (hdoc : x.api.Documented) (region : RegionId) (session : String)
    (created : Except ProviderError String) :
    Keeps x.api.machines (x.groupIdOf region session created) := by
  rcases created with error | body
  · rw [groupIdOf]
    split_ifs
    · apply keeps_bind
      · exact keeps_bind (keeps_ec2Call hdoc _ .findGroup rfl) fun _ => keeps_pure _
      · exact fun _ => keeps_answer _
    · exact keeps_throw _
  · exact keeps_answer _

theorem keeps_ensureGroup (hdoc : x.api.Documented) (region : RegionId) (session : String)
    (tags : List (String × String)) :
    Keeps x.api.machines (x.ensureGroup region session tags) := by
  apply keeps_bind (keeps_attempt (keeps_ec2Call hdoc _ .group rfl))
  intro created
  apply keeps_bind (keeps_groupIdOf hdoc region session created)
  intro groupId
  apply keeps_bind (keeps_attempt (keeps_ec2Call hdoc _ .ingress rfl))
  intro opened
  exact keeps_bind (keeps_answer _) fun _ => keeps_pure _

theorem keeps_awsPrepare (hdoc : x.api.Documented) (spec : LaunchSpec) :
    Keeps x.api.machines (x.awsPrepare spec) := by
  apply keeps_bind (keeps_answer _)
  rintro ⟨session, bundled⟩
  apply keeps_bind (keeps_attempt (keeps_resolveAmi hdoc spec.region))
  intro resolved
  apply keeps_bind (keeps_adapt _ (keeps_ensureGroup hdoc spec.region session spec.tags))
  exact fun _ => keeps_pure _

theorem keeps_firewallIdOf (hdoc : x.api.Documented) (session : String)
    (sent : Except ProviderError Response) :
    Keeps x.api.machines (x.firewallIdOf session sent) := by
  unfold firewallIdOf
  split
  · exact keeps_answer _
  · split_ifs
    · apply keeps_bind (keeps_sendRetrying hdoc .firewalls rfl)
      intro response
      exact keeps_bind (keeps_answer _) fun _ => keeps_answer _
    · exact keeps_throw _
  · exact keeps_throw _

theorem keeps_ensureFirewall (hdoc : x.api.Documented) (session : String) :
    Keeps x.api.machines (x.ensureFirewall session) := by
  have htag : Keeps x.api.machines (x.ensureTag (sessionDoTag session)) :=
    keeps_bind (keeps_attempt (keeps_sendRetrying hdoc .tag rfl)) fun _ => keeps_answer _
  apply keeps_bind htag
  intro _
  exact keeps_bind (keeps_attempt (keeps_sendRetrying hdoc _ rfl)) fun sent =>
    keeps_firewallIdOf hdoc session sent

theorem keeps_image (hdoc : x.api.Documented) : Keeps x.api.machines x.image := by
  unfold image
  split
  · exact keeps_pure _
  · exact keeps_bind (keeps_sendRetrying hdoc .images rfl) fun _ => keeps_answer _

theorem keeps_digitalOceanPrepare (hdoc : x.api.Documented) (spec : LaunchSpec) :
    Keeps x.api.machines (x.digitalOceanPrepare spec) := by
  apply keeps_bind (keeps_answer _)
  intro session
  apply keeps_bind (keeps_adapt _ (keeps_ensureFirewall hdoc session))
  intro _
  exact keeps_bind (keeps_adapt _ (keeps_image hdoc)) fun _ => keeps_pure _

theorem keeps_gcpPrepare (hdoc : x.api.Documented) (spec : LaunchSpec) :
    Keeps x.api.machines (x.gcpPrepare spec) := by
  have hinsert : ∀ body, Keeps x.api.machines (x.insertFirewall body) := fun body =>
    keeps_bind (keeps_attempt (keeps_sendRetrying hdoc _ rfl)) fun _ => keeps_answer _
  apply keeps_bind (keeps_answer _)
  rintro ⟨labels, session, tag⟩
  apply keeps_bind
  · apply keeps_bind (keeps_answer _)
    intro _
    exact keeps_bind (keeps_answer _) fun bodies => keeps_forM hinsert bodies
  · exact fun _ => keeps_bind (keeps_answer _) fun _ => keeps_pure _

theorem keeps_prepare (hdoc : x.api.Documented) (platform : Platform) (spec : LaunchSpec) :
    Keeps x.api.machines (x.prepare platform spec) := by
  cases platform with
  | aws => exact keeps_awsPrepare hdoc spec
  | digitalOcean => exact keeps_digitalOceanPrepare hdoc spec
  | gcp => exact keeps_gcpPrepare hdoc spec

/-! ## The create -/

theorem yields_awsPrepare (spec : LaunchSpec) :
    Yields (fun request => ∃ region imageId groupId,
      request = .runInstances region imageId groupId spec.tags) (x.awsPrepare spec) := by
  apply yields_bind
  rintro ⟨session, bundled⟩
  apply yields_bind
  intro resolved
  apply yields_bind
  intro groupId
  exact yields_pure ⟨_, _, _, rfl⟩

theorem yields_digitalOceanPrepare (spec : LaunchSpec) :
    Yields (fun request => ∃ name region image, request = .createDroplet name region image
      (bareTag :: spec.tags.map fun tag => toDoTag tag.1 tag.2)) (x.digitalOceanPrepare spec) := by
  apply yields_bind
  intro session
  apply yields_bind
  intro _
  apply yields_bind
  intro image
  exact yields_pure ⟨_, _, _, rfl⟩

theorem yields_gcpPrepare (spec : LaunchSpec) :
    Yields (fun request => ∃ zone name networkTag labels,
      request = .insertInstance zone name networkTag labels) (x.gcpPrepare spec) := by
  apply yields_bind
  rintro ⟨labels, session, tag⟩
  apply yields_bind
  intro _
  apply yields_bind
  intro _
  exact yields_pure ⟨_, _, _, _, rfl⟩

theorem state_create (platform : Platform) (request : Request) (s : ω) :
    ((x.create platform request).ends s).2 =
      ((sendRetrying (x.send .machine request)).ends s).2 := by
  cases platform with
  | aws =>
    show ((x.awsCreate request).ends s).2 = _
    rw [awsCreate, state_bind_answer]
    show ((ec2Call "RunInstances" (x.send .machine request)).ends s).2 = _
    rw [ec2Call, state_bind_answer]
    rfl
  | digitalOcean =>
    show ((x.digitalOceanCreate request).ends s).2 = _
    rw [digitalOceanCreate, state_bind_answer]
    rfl
  | gcp =>
    show ((x.gcpCreate request).ends s).2 = _
    rw [gcpCreate, state_bind_answer]

/-- Where each attempt that is carried out makes a machine of the session, there are as many
more of them as attempts carried out. -/
theorem tally_create {platform : Platform} {session : String} {tags : List (String × String)}
    (hadds : ∀ s, x.api.Adds s request tags) (hmark : x.sessionMark platform session ∈ tags)
    (s : ω) : x.tally platform session ((sendRetrying (x.send .machine request)).ends s).2 =
      x.tally platform session s +
        x.createAttempts.countP fun k => (x.passage .machine k).executed := by
  have hone : ∀ t, x.tally platform session (x.api.execute t request).1 =
      x.tally platform session t + 1 := by
    intro t
    obtain ⟨⟨vm, hvm, hmachines⟩, -⟩ := hadds t
    have hmarked : vm.tags.contains (x.sessionMark platform session) = true := by
      rw [hvm]
      exact List.contains_iff_mem.mpr hmark
    rw [tally, hmachines, List.countP_append, List.countP_singleton, if_pos hmarked]
    rfl
  apply Attempts.retrying_count
  · intro k t
    show x.tally platform session (x.send .machine request k t).2 = _
    rw [send_cases]
    rcases (x.passage .machine k).executed with _ | _
    · rfl
    · exact hone t
  · intro k t
    show Attempts.goesOn ((x.send .machine request k t).1.outcome []).verdict = _
    unfold send
    rcases x.passage .machine k with _ | ⟨executed, reply⟩
    · obtain ⟨-, hsuccess⟩ := hadds t
      have hclassified : classify (x.api.execute t request).2 [] =
          .ok (x.api.execute t request).2 := if_pos (.inl hsuccess)
      show Attempts.goesOn (classify (x.api.execute t request).2 []).verdict = false
      rw [hclassified]
      rfl
    · rfl

theorem tally_insert (hdoc : x.api.Documented) (platform : Platform) (session : String)
    (zone name networkTag : String) (labels : List (String × String)) (s : ω) :
    x.tally platform session ((sendRetrying
        (x.send .machine (.insertInstance zone name networkTag labels))).ends s).2 ≤
      x.tally platform session s + 1 := by
  have hbounded : ∀ t : ω, (x.api.machines t = x.api.machines s ∨
      (∃ vm ∈ x.api.machines t, vm.zone = zone ∧ vm.name = name) ∧
        ∃ vm, x.api.machines t = x.api.machines s ++ [vm]) →
      x.tally platform session t ≤ x.tally platform session s + 1 := by
    rintro t (hsame | ⟨-, vm, hmore⟩)
    · rw [tally, hsame]
      exact Nat.le_succ _
    · rw [tally, hmore, List.countP_append, List.countP_singleton]
      refine Nat.add_le_add_left ?_ _
      split_ifs
      · exact le_rfl
      · exact Nat.zero_le 1
  apply hbounded
  apply Attempts.retrying_invariant (P := fun t => x.api.machines t = x.api.machines s ∨
    (∃ vm ∈ x.api.machines t, vm.zone = zone ∧ vm.name = name) ∧
      ∃ vm, x.api.machines t = x.api.machines s ++ [vm])
  swap
  · exact .inl rfl
  intro k t ht
  show x.api.machines (x.send .machine _ k t).2 = _ ∨ _
  rw [send_cases]
  split_ifs
  swap
  · exact ht
  by_cases htaken : ∃ vm ∈ x.api.machines t, vm.zone = zone ∧ vm.name = name
  · rw [hdoc.insertTaken t zone name networkTag labels htaken]
    exact ht
  · obtain ⟨vm, hzone, hname, hmachines⟩ := hdoc.insertNew t zone name networkTag labels htaken
    rw [hmachines]
    rcases ht with hsame | ⟨hthere, -⟩
    · refine .inr ⟨⟨vm, List.mem_append_right _ (List.mem_singleton.mpr rfl), hzone, hname⟩, ?_⟩
      exact ⟨vm, by rw [hsame]⟩
    · exact absurd hthere htaken

theorem mem_tags {session : String} (hsession : spec.sessionId = some session) :
    (sessionTagKey, session) ∈ spec.tags := by
  obtain ⟨⟨key, value⟩, hfind, rfl⟩ := Option.map_eq_some_iff.mp hsession
  have hkey : key = sessionTagKey := by simpa using List.find?_some hfind
  exact hkey ▸ List.mem_of_find?_eq_some hfind

/-- A launch makes at most one machine of its session exactly where the provider is GCP, where
it does not come to its create, or where at most one of the attempts at the create is carried
out. -/
theorem oneMachine_iff (hdoc : x.api.Documented) (platform : Platform) (session : String)
    (hsession : spec.sessionId = some session) (s : ω) :
    x.tally platform session ((x.launch platform spec).ends s).2 ≤
        x.tally platform session s + 1 ↔
      platform = .gcp ∨ ¬x.Comes platform spec s ∨
        (x.createAttempts.countP fun k => (x.passage .machine k).executed) ≤ 1 := by
  have hkept := keeps_prepare hdoc platform spec s
  rcases hends : (x.prepare platform spec).ends s with ⟨error | request, t⟩
  · have hstate : ((x.launch platform spec).ends s).2 = t := by
      rw [launch, ends_bind_error hends]
    rw [hends] at hkept
    have htally : x.tally platform session t = x.tally platform session s := by
      rw [tally, hkept, tally]
    rw [hstate, htally]
    refine iff_of_true (Nat.le_succ _) (.inr (.inl ?_))
    rintro ⟨request, u, hcomes⟩
    exact nomatch congrArg Prod.fst (hends.symm.trans hcomes)
  · have hstate : ((x.launch platform spec).ends s).2 =
        ((sendRetrying (x.send .machine request)).ends t).2 := by
      rw [launch, ends_bind_ok hends, state_create]
    rw [hends] at hkept
    have htally : x.tally platform session t = x.tally platform session s := by
      rw [tally, hkept, tally]
    have hcomes : ¬¬x.Comes platform spec s := not_not.mpr ⟨request, t, hends⟩
    have hcounted : ∀ tags, (∀ u, x.api.Adds u request tags) →
        x.sessionMark platform session ∈ tags → platform ≠ .gcp →
        (x.tally platform session ((sendRetrying (x.send .machine request)).ends t).2 ≤
          x.tally platform session s + 1 ↔ platform = .gcp ∨ ¬x.Comes platform spec s ∨
            (x.createAttempts.countP fun k => (x.passage .machine k).executed) ≤ 1) := by
      intro tags hadds hmark hother
      rw [tally_create hadds hmark, htally, or_iff_right hother, or_iff_right hcomes]
      exact Nat.add_le_add_iff_left
    rw [hstate]
    have hmem := mem_tags hsession
    cases platform with
    | aws =>
      obtain ⟨region, imageId, groupId, rfl⟩ := yields_awsPrepare spec s request t hends
      exact hcounted spec.tags (fun u => hdoc.runInstances u region imageId groupId spec.tags)
        hmem (by decide)
    | digitalOcean =>
      obtain ⟨name, region, image, rfl⟩ := yields_digitalOceanPrepare spec s request t hends
      refine hcounted _ (fun u => hdoc.createDroplet u name region image _) ?_ (by decide)
      refine List.mem_map.mpr ⟨sessionDoTag session, List.mem_cons_of_mem _ ?_, rfl⟩
      exact List.mem_map.mpr ⟨_, hmem, rfl⟩
    | gcp =>
      obtain ⟨zone, name, networkTag, labels, rfl⟩ := yields_gcpPrepare spec s request t hends
      refine iff_of_true ?_ (.inl rfl)
      rw [← htally]
      exact tally_insert hdoc .gcp session zone name networkTag labels t

section lost

def answered (text : String) : Response := ⟨200, "OK", none, "", .ok text⟩

def plainApi : Api (List Vm) where
  execute machines request :=
    match request with
    | .createSecurityGroup _ _ _ => (machines, answered "<groupId>sg-1</groupId>")
    | .runInstances region _ _ tags => (machines ++ [⟨region, "i-1", tags⟩],
        answered "<instanceId>i-1</instanceId>")
    | .createDroplet name region _ tags =>
      (machines ++ [⟨region, name, tags.map fun tag => (tag, "")⟩], answered "1")
    | .insertInstance zone name _ labels =>
      if machines.any fun vm => vm.zone = zone && vm.name = name then
        (machines, ⟨409, "Conflict", none, "alreadyExists", .ok "alreadyExists"⟩)
      else (machines ++ [⟨zone, name, labels⟩], answered "")
    | _ => (machines, answered "")
  machines := id

theorem isSuccess_answered (text : String) : (answered text).isSuccess := by
  constructor
  · show 200 ≤ 200
    exact le_rfl
  · show 200 < 300
    decide

theorem plainApi_documented : plainApi.Documented where
  others machines request h := by
    cases request with
    | runInstances => exact nomatch h
    | createDroplet => exact nomatch h
    | insertInstance => exact nomatch h
    | _ => rfl
  runInstances machines region imageId groupId tags :=
    ⟨⟨⟨region, "i-1", tags⟩, rfl, rfl⟩, isSuccess_answered _⟩
  createDroplet machines name region image tags :=
    ⟨⟨⟨region, name, tags.map fun tag => (tag, "")⟩, rfl, rfl⟩, isSuccess_answered _⟩
  insertTaken machines zone name networkTag labels h := by
    have htaken : machines.any (fun vm => vm.zone = zone && vm.name = name) = true := by
      obtain ⟨vm, hvm, hzone, hname⟩ := h
      rw [List.any_eq_true]
      exact ⟨vm, hvm, by rw [hzone, hname]; simp⟩
    show (plainApi.execute machines (.insertInstance zone name networkTag labels)).1 = machines
    simp only [plainApi, htaken, if_true]
  insertNew machines zone name networkTag labels h := by
    have hfree : machines.any (fun vm => vm.zone = zone && vm.name = name) = false := by
      rw [List.any_eq_false]
      intro vm hvm hsame
      rw [Bool.and_eq_true, decide_eq_true_eq, decide_eq_true_eq] at hsame
      exact h ⟨vm, hvm, hsame.1, hsame.2⟩
    refine ⟨⟨zone, name, labels⟩, rfl, rfl, ?_⟩
    show (plainApi.execute machines (.insertInstance zone name networkTag labels)).1 = _
    simp only [plainApi, hfree, Bool.false_eq_true, if_false]
    rfl

/-- The first attempt at the create is carried out and its answer is lost. -/
def lostSurroundings : Surroundings (List Vm) where
  api := plainApi
  passage call k := if call = .machine ∧ k = 0 then .lost true (.timeout "timed out")
    else .answered
  cachedAmi := none
  bundledAmi _ := some "ami-1"
  cachedImage := some "debian-12-x64"
  nanos := 0
  seq := 0
  tokens _ := .ok ()
  debug := String.quote
  parameter _ := .ok "ami-2"
  firewall _ := .ok "1"
  firewallList _ := .ok []
  imageList _ := .ok []
  dropletId response := response.text
  rejection _ := none
  operation _ := .ok none

def lostSpec (region : RegionId) : LaunchSpec := ⟨region, [(sessionTagKey, "5e55101d")]⟩

theorem oneMachine_gcp :
    lostSurroundings.tally .gcp "5e55101d"
        ((lostSurroundings.launch .gcp (lostSpec "us-east1")).ends []).2 ≤
      lostSurroundings.tally .gcp "5e55101d" [] + 1 :=
  (oneMachine_iff plainApi_documented .gcp "5e55101d" rfl []).mpr (.inl rfl)

theorem oneMachine_lost :
    ¬lostSurroundings.tally .aws "5e55101d"
        ((lostSurroundings.launch .aws (lostSpec "us-east-1")).ends []).2 ≤ 1 ∧
      ¬lostSurroundings.tally .digitalOcean "5e55101d"
        ((lostSurroundings.launch .digitalOcean (lostSpec "nyc1")).ends []).2 ≤ 1 := by
  decide +kernel

end lost

end Surroundings
end JamStream.Cloud
