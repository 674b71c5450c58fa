import ActorFramework.Net.Http.Header
import ActorFramework.Net.Transport

/-!
# Messages of HTTP version 1.1

Reading the parts of a message from the input, and writing responses to the
output.
-/

namespace ActorFramework.Net.Http.V1

open ActorFramework.Core
open Foundation

def endOfHeader : List Byte := ascii "\r\n\r\n"

def splitHeader (bytes : List Byte) : Option (List Byte × List Byte) :=
  (search endOfHeader bytes).map fun i =>
    (bytes.take (i + endOfHeader.length), bytes.drop (i + endOfHeader.length))

/-- The size of a chunk and what follows its first line.  There is no error if
the input is incomplete. -/
def parseChunk (input : List Byte) : Except (Option Error) (Nat × List Byte) :=
  let chunk := (splitBy input eol).1
  let remainder := (splitBy input eol).2
  if chunk.length = input.length then
    if 10 ≤ input.length then
      .error (some ⟨.protocolError, "Chunk size part is too long."⟩)
    else .error none
  else if 59#8 ∈ chunk then
    .error (some ⟨.logicError, "Chunk extensions not supported."⟩)
  else if !chunk.all (isDigit 16) then
    .error (some ⟨.protocolError, "Chunk size decoding error."⟩)
  else if 8 < chunk.length then
    .error (some ⟨.protocolError, "Integer overflow while parsing chunk size."⟩)
  else
    .ok (chunk.foldl (fun x c => x * 16 + asciiToInt 16 c) 0,
      input.drop (input.length - remainder.length))

def beginResponseHeader (code : Status) : List Byte :=
  ascii "HTTP/1.1 " ++ toString10 code.toNat ++ ascii " " ++
    ascii code.phrase ++ ascii "\r\n"

def addHeaderField (field : Field) : List Byte :=
  field.1 ++ ascii ": " ++ field.2 ++ ascii "\r\n"

def endHeader : List Byte := ascii "\r\n"

def writeResponseWith (code : Status) (contentType content : List Byte)
    (fields : List Field) : List Byte :=
  beginResponseHeader code ++
    addHeaderField (ascii "Content-Type", contentType) ++
    addHeaderField (ascii "Content-Length", toString10 content.length) ++
    fields.flatMap addHeaderField ++ ascii "\r\n" ++ content

/-- The overload without fields appends the content once more. -/
def writeResponse (code : Status) (contentType content : List Byte) :
    List Byte :=
  writeResponseWith code contentType content [] ++ content

def sendChunk (bytes : List Byte) : List Byte :=
  toString16 bytes.length ++ ascii "\r\n" ++ bytes ++ ascii "\r\n"

def sendEndOfChunks : List Byte := ascii "0\r\n\r\n"

end ActorFramework.Net.Http.V1
