-- SUMMARY: The consent prompter of the tray: one request file, one response file per profile, and requests that poll for their answers.
import Tracenium.Lib.JsonText
import Tracenium.Lib.Machine
import Tracenium.Rcp.PathJail

/-!
`src/plugins/rcp/consent-prompter-tray.ts` between its awaits. Reads, writes and unlinks succeed, a part
between two awaits takes no time, and a timer fires when it is due.
-/

open Utf16 Json Function

namespace Rcp.Consent

inductive Kind
  | view
  | control
  deriving DecidableEq

structure Request where
  sessionId : Str
  capability : Str
  operator : Str
  timeoutSeconds : Nat
  deriving DecidableEq

inductive Decision
  | approved
  | denied
  | timeout
  | unavailable
  deriving DecidableEq

/-! ## Texts -/

def Kind.name : Kind → Str
  | .view => text "view"
  | .control => text "control"

def kindForCapability (capability : Str) : Kind :=
  if capability = text "rcp.screen.control" then .control else .view

/-- The em dash is between spaces. -/
def consentTitle : Kind → Str
  | .view => text "Tracenium " ++ 0x2014 :: text " Screen sharing request"
  | .control => text "Tracenium " ++ 0x2014 :: text " Remote control request"

def allowLabel : Kind → Str
  | .view => text "Allow viewing"
  | .control => text "Allow control"

def denyLabel : Str := text "Don't allow"

def consentLines (kind : Kind) (operator : Str) (recording : Bool) : List Str :=
  let who := if trim operator = [] then text "A remote operator" else trim operator
  (match kind with
    | .view =>
      [who ++ text " is requesting to VIEW your screen.", text "They will see everything on your display,",
        text "including any windows you have open."]
    | .control =>
      [who ++ text " is requesting to CONTROL this computer.", text "They can already see your screen.",
        text "This also lets them use your mouse and keyboard."]) ++
    [text "Requested through Tracenium, your IT management software."] ++
    if recording then [text "This session is being recorded."] else []

/-! ## Files -/

/-- `TrayConsentRequestFile`. -/
structure RequestFile where
  requestId : Str
  sessionId : Str
  kind : Kind
  title : Str
  lines : List Str
  allowLabel : Str
  denyLabel : Str
  expiresAt : Nat
  deriving DecidableEq

structure Response where
  requestId : Str
  approved : Bool
  respondedBy : Option Str
  deriving DecidableEq

def Response.decision (r : Response) : Decision := if r.approved then .approved else .denied

/-- A response file: which of the writes it is from, and what it parses to. -/
structure ResponseFile where
  serial : Nat
  content : Option Response
  deriving DecidableEq

abbrev Files := Str → Option ResponseFile

/-- Every file that is found is unlinked, up to the answer. -/
def consume (requestId : Str) : List Str → Files → Files × Option Response
  | [], files => (files, none)
  | profile :: rest, files =>
    match files profile with
    | none => consume requestId rest files
    | some file =>
      match file.content with
      | some r =>
        if r.requestId = requestId then (update files profile none, some r)
        else consume requestId rest (update files profile none)
      | none => consume requestId rest (update files profile none)

/-! ## Requests -/

def POLL_MS : Nat := 300

structure Prompt where
  file : RequestFile
  deadline : Nat
  deriving DecidableEq

def Prompt.requestId (p : Prompt) : Str := p.file.requestId

inductive Phase
  /-- The interactive user is asked for. -/
  | asking (r : Request)
  | polling (p : Prompt) (wake : Nat)
  /-- An answer was consumed, and the interactive user is asked for again. -/
  | answered (p : Prompt) (r : Response)
  | settled (p : Option Prompt) (d : Decision)
  deriving DecidableEq

def Phase.pending : Phase → Option Prompt
  | .polling p _ => some p
  | .answered p _ => some p
  | _ => none

/-- A response that was written: by whom and when, and the requests that were pending under its id. -/
structure Written where
  profile : Str
  content : Option Response
  at_ : Nat
  asked : List Nat
  deriving DecidableEq

/-- `last` is the request that was published last. `written` has all responses in their order, and
`overwritten` those that were replaced before they were read. -/
structure State where
  now : Nat
  request : Option RequestFile
  files : Files
  requests : List Phase
  last : Option Nat
  written : List Written
  overwritten : List Nat

def publish (now : Nat) (r : Request) (recording : Bool) : Prompt :=
  let kind := kindForCapability r.capability
  { file :=
      { requestId := r.sessionId ++ text "." ++ kind.name ++ text "." ++ decimal now
        sessionId := r.sessionId
        kind := kind
        title := consentTitle kind
        lines := consentLines kind r.operator recording
        allowLabel := Consent.allowLabel kind
        denyLabel := Consent.denyLabel
        expiresAt := now + r.timeoutSeconds * 1000 }
    deadline := now + r.timeoutSeconds * 1000 }

def State.put (s : State) (n : Nat) (phase : Phase) : State := { s with requests := s.requests.set n phase }

/-- The `finally`: the request file is unlinked, whatever it holds. -/
def settle (s : State) (n : Nat) (p : Prompt) (d : Decision) : State :=
  { s.put n (.settled (some p) d) with request := none }

def loop (profiles : List Str) (s : State) (n : Nat) (p : Prompt) : State :=
  if s.now < p.deadline then
    match consume p.requestId profiles s.files with
    | (files, some r) => { s with files := files }.put n (.answered p r)
    | (files, none) => { s with files := files }.put n (.polling p (s.now + POLL_MS))
  else settle s n p .timeout

/-! ## The machine -/

inductive Event
  | request (r : Request)
  /-- Whether there is an interactive user, and whether the recording is enabled. -/
  | console (n : Nat) (user recording : Bool)
  | poll (n : Nat)
  | identified (n : Nat)
  /-- The tray writes a response into a profile. -/
  | respond (profile : Str) (content : Option Response)
  | tick (d : Nat)

def Phase.due (t : Nat) : Phase → Bool
  | .polling _ wake => wake < t
  | _ => false

/-- The requests that are pending under the id. -/
def State.askedBy (s : State) (content : Option Response) : List Nat :=
  (List.range s.requests.length).filter fun n =>
    ((s.requests[n]?.bind Phase.pending).map Prompt.requestId).any fun id => content.any (·.requestId = id)

def step (profiles : List Str) (s : State) (e : Event) : State :=
  match e with
  | .request r => { s with requests := s.requests ++ [.asking r] }
  | .console n user recording =>
    match s.requests[n]? with
    | some (.asking r) =>
      if user then
        let p := publish s.now r recording
        loop profiles { s with request := some p.file, last := some n } n p
      else s.put n (.settled none .unavailable)
    | _ => s
  | .poll n =>
    match s.requests[n]? with
    | some (.polling p wake) => if wake = s.now then loop profiles s n p else s
    | _ => s
  | .identified n =>
    match s.requests[n]? with
    | some (.answered p r) => settle s n p r.decision
    | _ => s
  | .respond profile content =>
    if profiles.contains profile then
      { s with
        files := update s.files profile (some ⟨s.written.length, content⟩)
        written := s.written ++ [⟨profile, content, s.now, s.askedBy content⟩]
        overwritten := (s.files profile).toList.map ResponseFile.serial ++ s.overwritten }
    else s
  | .tick d => if s.requests.any (·.due (s.now + d)) then s else { s with now := s.now + d }

def machine (profiles : List Str) : Machine State Event where
  init := ⟨0, none, fun _ => none, [], none, [], []⟩
  step := step profiles

end Rcp.Consent
