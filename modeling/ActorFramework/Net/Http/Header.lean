import ActorFramework.Core.Parser

/-!
# Headers of HTTP messages

A header is a list of lines that ends with an empty line.  The first line is
different for requests and responses, each of the other lines has a field.

Conversions of strings to integers have a case that goes through a floating
point number, see `toInteger`.  The parser for URIs is a parameter as well.
-/

namespace ActorFramework.Net.Http

open ActorFramework.Core
open Foundation

def eol : List Byte := ascii "\r\n"

/-- The status codes have 16 bits, and not all of them have a name. -/
abbrev Status := BitVec 16

namespace Status

def badRequest : Status := 400#16

def payloadTooLarge : Status := 413#16

def requestHeaderFieldsTooLarge : Status := 431#16

def notImplemented : Status := 501#16

def phrase (code : Status) : String :=
  match code.toNat with
  | 100 => "Continue"
  | 101 => "Switching Protocols"
  | 200 => "OK"
  | 201 => "Created"
  | 202 => "Accepted"
  | 203 => "Non-Authoritative Information"
  | 204 => "No Content"
  | 205 => "Reset Content"
  | 206 => "Partial Content"
  | 300 => "Multiple Choices"
  | 301 => "Moved Permanently"
  | 302 => "Found"
  | 303 => "See Other"
  | 304 => "Not Modified"
  | 305 => "Use Proxy"
  | 307 => "Temporary Redirect"
  | 400 => "Bad Request"
  | 401 => "Unauthorized"
  | 402 => "Payment Required"
  | 403 => "Forbidden"
  | 404 => "Not Found"
  | 405 => "Method Not Allowed"
  | 406 => "Not Acceptable"
  | 407 => "Proxy Authentication Required"
  | 408 => "Request Timeout"
  | 409 => "Conflict"
  | 410 => "Gone"
  | 411 => "Length Required"
  | 412 => "Precondition Failed"
  | 413 => "Payload Too Large"
  | 414 => "URI Too Long"
  | 415 => "Unsupported Media Type"
  | 416 => "Range Not Satisfiable"
  | 417 => "Expectation Failed"
  | 426 => "Upgrade Required"
  | 428 => "Precondition Required"
  | 429 => "Too Many Requests"
  | 431 => "Request Header Fields Too Large"
  | 500 => "Internal Server Error"
  | 501 => "Not Implemented"
  | 502 => "Bad Gateway"
  | 503 => "Service Unavailable"
  | 504 => "Gateway Timeout"
  | 505 => "HTTP Version Not Supported"
  | 511 => "Network Authentication Required"
  | _ => "Unrecognized"

end Status

inductive Method where
  | get
  | head
  | post
  | put
  | del
  | connect
  | options
  | trace
  deriving DecidableEq

abbrev Field := List Byte × List Byte

def parseField (line : List Byte) : Option Field :=
  match search [58#8] line with
  | some n =>
    if trim (line.take n) = [] then none
    else some (trim (line.take n), trim (line.drop (n + 1)))
  | none => none

/-- The loop of `process_lines`, with the fields and the input after the empty
line.  It fails without an empty line and at a line that is not a field. -/
def processLines : Nat → List Byte → Option (List Field × List Byte)
  | 0, _ => none
  | fuel + 1, input =>
    match search eol input with
    | none => none
    | some 0 => some ([], input.drop eol.length)
    | some pos =>
      match parseField (input.take pos) with
      | none => none
      | some field =>
        (processLines fuel (input.drop (pos + eol.length))).map
          fun res => (field :: res.1, res.2)

def parseFields (data : List Byte) : Option (List Field) :=
  (processLines (data.length + 1) data).map (·.1)

def findByKey (fields : List Field) (key : List Byte) : Option (List Byte) :=
  (fields.find? fun field => icaseEqual field.1 key).map (·.2)

def chunkedTransferEncoding (fields : List Field) : Bool :=
  (search (ascii "chunked")
    ((findByKey fields (ascii "Transfer-Encoding")).getD [])).isSome

def contentLength (real : List Byte → Option Int) (fields : List Field) :
    Option Nat :=
  (findByKey fields (ascii "Content-Length")).bind (getAsUnsigned real 64)

structure ResponseHeader where
  version : List Byte := []
  status : Nat := 0
  statusText : List Byte := []
  fields : List Field := []

def validateHttpVersion (str : List Byte) : Bool :=
  decide (ascii "HTTP/" <+: str) &&
    decide (str.drop 5 = ascii "1" ∨ str.drop 5 = ascii "1.0" ∨
      str.drop 5 = ascii "1.1")

def ResponseHeader.parse (real : List Byte → Option Int) (raw : List Byte) :
    Except String ResponseHeader :=
  if raw = [] then .error "Empty header."
  else
    let firstLine := (splitBy raw eol).1
    let version := (splitBy firstLine (ascii " ")).1
    let rest := splitBy (splitBy firstLine (ascii " ")).2 (ascii " ")
    if !validateHttpVersion version then .error "Invalid HTTP version."
    else
      match getAsUnsigned real 16 rest.1 with
      | none => .error "Invalid HTTP status."
      | some status =>
        if trim rest.2 = [] then .error "Invalid HTTP status text."
        else
          match parseFields (splitBy raw eol).2 with
          | none => .error "Malformed header fields."
          | some fields => .ok ⟨version, status, trim rest.2, fields⟩

structure Uri where
  str : List Byte
  hasAuthority : Bool

structure RequestHeader where
  method : Method := .get
  uri : Uri := ⟨[], false⟩
  version : List Byte := []
  fields : List Field := []

/-- The texts of the errors are only logged. -/
def parseRequestTarget (makeUri : List Byte → Option Uri) (method : Method)
    (target : List Byte) : Option Uri :=
  if target = [] then none
  else if method = .connect then
    (makeUri (ascii "nil://" ++ target)).filter (·.hasAuthority)
  else if target.head? = some 47#8 then makeUri (ascii "nil:" ++ target)
  else if ascii "http" <+: target then makeUri target
  else if method = .options ∧ target = ascii "*" then makeUri (ascii "nil:/")
  else none

def methods : List (List Byte × Method) :=
  [(ascii "get", .get), (ascii "head", .head), (ascii "post", .post),
    (ascii "put", .put), (ascii "delete", .del), (ascii "connect", .connect),
    (ascii "options", .options), (ascii "trace", .trace)]

def parseMethod (str : List Byte) : Option Method :=
  (methods.find? fun entry => icaseEqual str entry.1).map (·.2)

def RequestHeader.parse (makeUri : List Byte → Option Uri) (raw : List Byte) :
    Except String RequestHeader :=
  if raw = [] then .error "Empty header."
  else
    let firstLine := (splitBy raw eol).1
    match parseMethod (splitBy firstLine (ascii " ")).1 with
    | none => .error "Invalid HTTP method."
    | some method =>
      let rest := splitBy (splitBy firstLine (ascii " ")).2 (ascii " ")
      match parseRequestTarget makeUri method rest.1 with
      | none => .error "Malformed Request-URI."
      | some uri =>
        match parseFields (splitBy raw eol).2 with
        | none => .error "Malformed header fields."
        | some fields => .ok ⟨method, uri, rest.2, fields⟩

end ActorFramework.Net.Http
