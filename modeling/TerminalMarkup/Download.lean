/-
Downloading a log.

A download is one request and what came of it.  The exchange itself is not part of
this library: it is a function from requests to replies, and this file says which
request is made and how a reply is understood.  A body is taken to be UTF-8, whatever the
reply says of it.
-/
import TerminalMarkup.Entries
import TerminalMarkup.Text.Utf8

namespace TerminalMarkup.Download

/-- A request for what is at an address. -/
structure Request where
  url : Text
  /-- Header fields in the order of their names. -/
  headers : List (Text × Text)
  followRedirects : Bool
  deriving DecidableEq, Repr

/-- How an exchange can fail. -/
inductive Failure where
  /-- No connection could be made. -/
  | connect
  /-- Something took too long. -/
  | timeout
  /-- The reply sets one cookie twice. -/
  | cookieConflict
  /-- Anything else. -/
  | other
  deriving DecidableEq, Repr

/-- What comes of a request. -/
inductive Reply where
  | response (status : Nat) (body : List UInt8)
  | failure (kind : Failure) (message : Text)
  deriving DecidableEq, Repr

/-- Why there is no log. -/
inductive Fault where
  | unreachable (url : Text)
  | timedOut (url : Text)
  | failed (url message : Text)
  | notFound (url : Text)
  | badStatus (url : Text) (status : Nat)
  | cookieConflict (message : Text)
  deriving DecidableEq, Repr

/-- The fault in words. -/
def Fault.message : Fault → Text
  | .unreachable url => "Cannot connect to ".toText ++ url
  | .timedOut url => "Request to ".toText ++ url ++ " timed out".toText
  | .failed url message => "Fetching ".toText ++ url ++ " failed: ".toText ++ message
  | .notFound url => "Log not found: ".toText ++ url
  | .badStatus url status =>
    "Fetching ".toText ++ url ++ " failed with HTTP ".toText ++ Text.ofNat status
  | .cookieConflict message => message

/-- Whether the fault is one that a command explains and ends on; on the others it breaks off. -/
def Fault.isExplained : Fault → Bool
  | .cookieConflict _ => false
  | _ => true

/-- The request for a log.  Of fields of one name the last counts. -/
def request (url : Text) (headers : List (Text × Text)) : Request :=
  { url
    headers := (Entries.ofPairs headers).mergeSort fun a b => Text.notAfter a.1 b.1
    followRedirects := true }

/-- Whether a status reports success. -/
def isSuccess (status : Nat) : Bool := 200 ≤ status && status ≤ 299

/-- The log that a reply brings; bytes that are no UTF-8 are replaced. -/
def textOf (url : Text) : Reply → Except Fault Text
  | .response status body =>
    if status = 404 then .error (.notFound url)
    else if isSuccess status then .ok (Utf8.decodeLossy body)
    else .error (.badStatus url status)
  | .failure .connect _ => .error (.unreachable url)
  | .failure .timeout _ => .error (.timedOut url)
  | .failure .cookieConflict message => .error (.cookieConflict message)
  | .failure .other message => .error (.failed url message)

/-- The log at an address, given what comes of requests. -/
def fetch (respond : Request → Reply) (url : Text) (headers : List (Text × Text)) :
    Except Fault Text :=
  textOf url (respond (request url headers))

end TerminalMarkup.Download
