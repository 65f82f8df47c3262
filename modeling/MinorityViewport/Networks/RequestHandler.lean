import MinorityViewport.Networks.Http
import MinorityViewport.Lib.SharedFile
import MinorityViewport.Algorithms.CallReturns

/-!
# The request handler

`Networks/RequestHandler.cpp`.  A request is answered with a file.  The
endpoints of the API go the same way: an endpoint writes its result to the
file that has its name, the file is read back, and a file of the extension
`json` is emptied again after that.

* `Files` is the content of the files under their names.  A name goes to the
  operating system as a C string, so it ends at its first NUL.
* An `ofstream` is a pair of steps, `truncate` when it is opened and
  `overwrite` when it is closed and its buffer goes to the start of the file.
* `Endpoint` enumerates the seven paths of the API, and `Endpoint.action` is
  the body of the `if` that the source has for each of them.

`handleRequest` is a computation over the files and the viewport.  What the
outside world decides while it runs is a `World`.
-/

namespace MinorityViewport.Http

open Exec

variable {K : Type}

/-! ## Files -/

abbrev Files := OrdMap Str Str

/-- The document root of the handler, and the names that an `ofstream` can
open there. -/
structure Site where
  docRoot : Str
  writable : Str → Bool

namespace Site

/-- `ofstream file(fullPath)`: the file is created or emptied. -/
def truncate (site : Site) (fullPath : Str) (files : Files) : Files :=
  if site.writable (cStr fullPath) then files.assign (cStr fullPath) [] else files

/-- The buffer of an `ofstream` goes to its file. -/
def overwrite (site : Site) (fullPath text : Str) (files : Files) : Files :=
  if site.writable (cStr fullPath) then
    files.assign (cStr fullPath)
      (SharedFile.overlay text ((files.find? (cStr fullPath)).getD []))
  else files

/-- `ifstream is(fullPath.c_str())` and the loop that reads all of it. -/
def read (fullPath : Str) (files : Files) : Option Str := files.find? (cStr fullPath)

end Site

/-! ## The endpoints -/

structure Server (K : Type) where
  files : Files
  viewport : Viewport K

/-- What the outside world decides during a request. -/
structure World (K : Type) where
  draws : List Nat
  alloc : Allocator
  svd : SvdCompute K
  rand : Nat → Nat
  now : Int

inductive Endpoint where
  | clientsRegister
  | clientsDeregister
  | sensorsRegister
  | clientsListing
  | visualisationsOrder
  | visualisationsCalibrate
  | visualisationsData
  deriving DecidableEq, Repr

namespace Endpoint

/-- The endpoints in the order of the source. -/
def all : List Endpoint :=
  [clientsRegister, clientsDeregister, sensorsRegister, clientsListing, visualisationsOrder,
    visualisationsCalibrate, visualisationsData]

def path : Endpoint → Str
  | clientsRegister => "/api/clients/register.json".toList
  | clientsDeregister => "/api/clients/deregister.json".toList
  | sensorsRegister => "/api/sensors/register.json".toList
  | clientsListing => "/api/clients/listing.json".toList
  | visualisationsOrder => "/api/visualisations/order.json".toList
  | visualisationsCalibrate => "/api/visualisations/calibrate.json".toList
  | visualisationsData => "/api/visualisations/data.json".toList

/-- The result of a registration. -/
def clientIdText (clientId : Nat) : Str :=
  "\x7b".toList ++ "\"client_id\":".toList ++ toStringNat clientId ++ "\x7d".toList

/-- The result of a Boolean call. -/
def resultText (result : Bool) : Str :=
  "\x7b".toList ++ "\"result\":".toList ++ "[".toList ++
    (if result then "true".toList else "false".toList) ++ "]".toList ++ "\x7d".toList

section Results

variable [Json.Machine] [Field K] [LinearOrder K] [FloorRing K]

/-- The text that `data.json` gets.  The pointer `scene` is assigned for two
values of `Request-Type`, and read for all. -/
def sceneText (world : World K) (req : Request) : EStateM Fault (Viewport K) Str :=
  let type := requestHeaderVal req "Request-Type"
  if type = "global".toList then do
    let found ← Viewport.getGlobalScene world.rand world.now
    let σ ← get
    pure (if found then σ.globalScene.toJSON else [])
  else if type = "single".toList then do
    let σ ← get
    match σ.getLocalSceneBySensorId (requestHeaderVal req "Sensor-Id") with
    | some scenePtr => do
      let scene ← ofExcept (σ.scenes.deref scenePtr)
      pure scene.toJSON
    | none => pure []
  else throw .unassignedPointer

/-- The calls of an endpoint, and the text that it writes to its file. -/
def text (world : World K) (req : Request) : Endpoint → EStateM Fault (Viewport K) Str
  | clientsRegister => do
    let clientId ← Viewport.registerClient world.draws (requestHeaderVal req "PHYSICAL_LOC")
      (requestHeaderVal req "IP_ADDR")
    pure (clientIdText clientId)
  | clientsDeregister => do
    let deregisterClientId ← ofExcept (stoi (requestHeaderVal req "CLIENT_ID"))
    Viewport.deregisterClient (toUnsigned deregisterClientId)
    pure []
  | sensorsRegister => do
    let clientId ← ofExcept (stoi (requestHeaderVal req "CLIENT_ID"))
    Viewport.registerSensors world.alloc (toUnsigned clientId)
      (requestHeaderVal req "SENSOR_LIST")
    pure []
  | clientsListing => do
    let σ ← get
    ofExcept σ.getClientListing
  | visualisationsOrder => do
    let result ← Viewport.calibrateSceneOrder
    pure (resultText result)
  | visualisationsCalibrate => do
    let sceneAOrder ← ofExcept (stoi (requestHeaderVal req "SCENE_A_ORDER"))
    let sceneBOrder ← ofExcept (stoi (requestHeaderVal req "SCENE_B_ORDER"))
    let result ← Viewport.calibrateScenes world.svd (toUnsigned sceneAOrder)
      (requestHeaderVal req "SKELETONS_A") (toUnsigned sceneBOrder)
      (requestHeaderVal req "SKELETONS_B")
    pure (resultText result)
  | visualisationsData => sceneText world req

/-- The endpoints that have an `ofstream`. -/
def writesFile : Endpoint → Bool
  | clientsDeregister | sensorsRegister => false
  | _ => true

/-- The body of the endpoint. -/
def action (site : Site) (world : World K) (req : Request) (endpoint : Endpoint) :
    EStateM Fault (Server K) PUnit :=
  let calls := zoom Server.viewport (fun σ s => { s with viewport := σ })
    (endpoint.text world req)
  let fullPath := site.docRoot ++ endpoint.path
  if endpoint.writesFile then do
    modify fun s => { s with files := site.truncate fullPath s.files }
    let text ← calls
    modify fun s => { s with files := site.overwrite fullPath text s.files }
  else do
    let _ ← calls
    pure ⟨⟩

end Results

end Endpoint

/-! ## Handling a request -/

/-- The end of `handle_request`, from the extension of the path on. -/
def sendFile (site : Site) (requestPath : Str) : EStateM Fault (Server K) Reply := do
  let extension := extension requestPath
  let fullPath := site.docRoot ++ requestPath
  let s ← get
  match Site.read fullPath s.files with
  | none => pure (stockReply .notFound)
  | some content =>
    if extension = "json".toList then
      modify fun s => { s with files := site.truncate fullPath s.files }
    pure (.ofContent .ok content (extensionToType extension))

/-- `request_handler::handle_request`. -/
def handleRequest [Json.Machine] [Field K] [LinearOrder K] [FloorRing K] (site : Site)
    (world : World K) (req : Request) : EStateM Fault (Server K) Reply :=
  match urlDecode req.uri with
  | none => pure (stockReply .badRequest)
  | some requestPath =>
    if requestPath = [] ∨ requestPath.head? ≠ some '/' ∨ "..".toList <:+: requestPath then
      pure (stockReply .badRequest)
    else do
      let requestPath :=
        if requestPath.getLast? = some '/' then requestPath ++ "index.html".toList
        else requestPath
      Endpoint.all.forM fun endpoint =>
        if requestPath = endpoint.path then endpoint.action site world req else pure ⟨⟩
      sendFile site requestPath

end MinorityViewport.Http
