import Creek.Library.Numerals
import Creek.Mesh.Balancer

/-! The HTTP server in front of JSON-RPC: one client, from the bytes that it sends to the response. -/

namespace Creek.Leaf.JsonRpcHttp

open Library (ascii decimal signedDecimal strtol)
open Tight (Bytes)

abbrev HeaderMap := Mesh.Metadata

def kMaxBodyBytes : Nat := 4 * 1024 * 1024
def kRecvChunk : Nat := 4096
def kHeaderBufReserve : Nat := 16 * 1024

-- The connection

/-- What a client is still to send before it closes the connection, and how many bytes each of the
coming calls of `recv` would hand over.
-/
structure Socket where
  data : Bytes
  sizes : Nat → Nat

/-- `recv` hands over at least one byte and at most as many as there is room for, and nothing when
the client has closed the connection.
-/
def Socket.recv (socket : Socket) (room : Nat) : Option (Bytes × Socket) :=
  if socket.data.isEmpty then none
  else
    let count := max 1 (min room (socket.sizes 0))
    some (socket.data.take count,
      { data := socket.data.drop count, sizes := fun call => socket.sizes (call + 1) })

theorem Socket.recv_length {socket next : Socket} {room : Nat} {chunk : Bytes}
    (received : socket.recv room = some (chunk, next))
    : next.data.length < socket.data.length := by
  rw [recv] at received
  split at received
  · cases received
  · rename_i more
    cases received
    have some := List.length_pos_iff.mpr (fun none => more (List.isEmpty_iff.mpr none))
    simp only [List.length_drop]
    omega

/-- Where `kHeaderTerminator` begins. -/
def findTerminator : Bytes → Option Nat
  | [] => none
  | 13 :: 10 :: 13 :: 10 :: _ => some 0
  | _ :: rest => (findTerminator rest).map (· + 1)

/-- Receives until there is a terminator; the size is looked at before each call only. -/
def recvUntil (limit : Nat) (socket : Socket) (buf : Bytes) : Option (Bytes × Socket) :=
  if buf.length < limit then
    match received : socket.recv kRecvChunk with
    | none => none
    | some (chunk, next) =>
        have := Socket.recv_length received
        let buf := buf ++ chunk
        if (findTerminator buf).isSome then some (buf, next) else recvUntil limit next buf
  else if (findTerminator buf).isSome then some (buf, socket)
  else none
termination_by socket.data.length

/-- The loop that receives what is missing of a body. -/
def recvBody (contentLength : Nat) (socket : Socket) (body : Bytes) : Option Bytes :=
  if body.length < contentLength then
    match received : socket.recv (min kRecvChunk (contentLength - body.length)) with
    | none => none
    | some (chunk, next) =>
        have := Socket.recv_length received
        recvBody contentLength next (body ++ chunk)
  else some body
termination_by socket.data.length

-- The header block

/-- The parts of a text between line ends. -/
def splitLines : Bytes → List Bytes
  | [] => [[]]
  | 13 :: 10 :: rest => [] :: splitLines rest
  | byte :: rest =>
      match splitLines rest with
      | line :: lines => (byte :: line) :: lines
      | [] => [[byte]]

/-- The lines that the loops over a header block look at: those before the first empty one. -/
def headerLines (headerBlock : Bytes) : List Bytes := (splitLines headerBlock).takeWhile (· ≠ [])

def toLower (text : Bytes) : Bytes :=
  text.map fun byte => if 65 ≤ byte && byte ≤ 90 then byte + 32 else byte

def trim (text : Bytes) : Bytes :=
  ((text.dropWhile fun byte => byte = 32 || byte = 9).reverse.dropWhile fun byte =>
    byte = 32 || byte = 9 || byte = 13).reverse

/-- The method and the path. -/
def parseRequestLine (headerBlock : Bytes) : Option (Bytes × Bytes) :=
  match splitLines headerBlock with
  | start :: _ :: _ =>
      if (32 : UInt8) ∈ start then
        let method := start.takeWhile (· ≠ 32)
        let path := (start.drop (method.length + 1)).takeWhile (· ≠ 32)
        if method.isEmpty || path.isEmpty then none else some (method, path)
      else none
  | _ => none

/-- `std::strtoull` with base 10 on a C string, and what is left of it. -/
def strtoull (text : Bytes) : Nat × Bytes :=
  let text := text.takeWhile (· ≠ 0)
  match strtol 10 text with
  | none => (0, text)
  | some numeral =>
      if numeral.magnitude < 2 ^ 64 then
        (if numeral.negative then (2 ^ 64 - numeral.magnitude) % 2 ^ 64 else numeral.magnitude,
          numeral.rest)
      else (2 ^ 64 - 1, numeral.rest)

/-- The name and the value of a header line. -/
def headerField (line : Bytes) : Option (Bytes × Bytes) :=
  if (58 : UInt8) ∈ line then
    let name := line.takeWhile (· ≠ 58)
    some (toLower name, trim (line.drop (name.length + 1)))
  else none

/-- The length that the first line of that name gives, if there is one; nothing if it is no number. -/
def parseContentLength (headerBlock : Bytes) : Option (Option Nat) :=
  match ((headerLines headerBlock).filterMap headerField).lookup (ascii "content-length") with
  | none => some none
  | some value =>
      if value.isEmpty then none
      else
        let (length, rest) := strtoull value
        if rest.isEmpty then some (some length) else none

/-- The later one of two headers with a name counts. -/
def parseHeaders (headerBlock : Bytes) : HeaderMap :=
  ((headerLines headerBlock).filterMap headerField).foldl
    (fun result (name, value) => result.insert name value) ∅

-- The exchange with one client

def statusReason (code : Int) : Bytes :=
  if code = 200 then ascii "OK"
  else if code = 400 then ascii "Bad Request"
  else if code = 404 then ascii "Not Found"
  else if code = 405 then ascii "Method Not Allowed"
  else if code = 411 then ascii "Length Required"
  else if code = 413 then ascii "Payload Too Large"
  else if code = 500 then ascii "Internal Server Error"
  else ascii "Unknown"

def responseText (status : Int) (reason body : Bytes) : Bytes :=
  ascii "HTTP/1.1 " ++ signedDecimal status ++ ascii " " ++ reason ++ ascii "\r\n"
    ++ ascii "Content-Type: application/json\r\n"
    ++ ascii "Content-Length: " ++ decimal body.length ++ ascii "\r\n"
    ++ ascii "Connection: close\r\n"
    ++ ascii "\r\n"
    ++ body

/-- What a client gets, and what the handler is called with, if it is. -/
structure Exchange where
  sent : Bytes
  called : Option (Bytes × HeaderMap) := none

/-- A response without a call. -/
def refuse (status : Int) (reason body : Bytes) : Exchange where
  sent := responseText status reason body

def badRequest : Exchange := refuse 400 (ascii "Bad Request") (ascii "\x7b\"error\":\"bad request\"\x7d")

/-- The call of the handler; it may throw. -/
def callHandler (handler : Bytes → HeaderMap → Option (Int × Bytes)) (headerBlock body : Bytes)
    : Exchange :=
  let headers := parseHeaders headerBlock
  let sent :=
    match handler body headers with
    | none =>
        responseText 500 (ascii "Internal Server Error") (ascii "\x7b\"error\":\"internal error\"\x7d")
    | some (status, text) => responseText status (statusReason status) text
  { sent, called := some (body, headers) }

/-- The body: what came with the headers, and what is missing of it. -/
def receiveBody (contentLength : Nat) (prefixBody : Bytes) (socket : Socket) : Option Bytes :=
  if contentLength ≤ prefixBody.length then some (prefixBody.take contentLength)
  else recvBody contentLength socket prefixBody

/-- The checks on a header block, in their order; the body is received if they pass. -/
def serve (handler : Bytes → HeaderMap → Option (Int × Bytes)) (headerBlock : Bytes)
    (receive : Nat → Option Bytes) (method path : Bytes)
    : Exchange :=
  match parseContentLength headerBlock with
  | none => refuse 400 (ascii "Bad Request") (ascii "\x7b\"error\":\"bad header\"\x7d")
  | some contentLength =>
      if method = ascii "GET" && path = ascii "/healthz" then
        refuse 200 (ascii "OK") (ascii "\x7b\"status\":\"ok\"\x7d")
      else if path ≠ ascii "/rpc" then
        refuse 404 (ascii "Not Found") (ascii "\x7b\"error\":\"not found\"\x7d")
      else if method ≠ ascii "POST" then
        refuse 405 (ascii "Method Not Allowed") (ascii "\x7b\"error\":\"method not allowed\"\x7d")
      else
        match contentLength with
        | none =>
            refuse 411 (ascii "Length Required")
              (ascii "\x7b\"error\":\"content-length required\"\x7d")
        | some length =>
            if kMaxBodyBytes < length then
              refuse 413 (ascii "Payload Too Large") (ascii "\x7b\"error\":\"payload too large\"\x7d")
            else
              match receive length with
              | none =>
                  refuse 400 (ascii "Bad Request") (ascii "\x7b\"error\":\"incomplete body\"\x7d")
              | some body => callHandler handler headerBlock body

def handleClient (handler : Bytes → HeaderMap → Option (Int × Bytes)) (client : Socket) : Exchange :=
  match recvUntil kHeaderBufReserve client [] with
  | none => badRequest
  | some (head, client) =>
      match findTerminator head with
      | none => badRequest
      | some headerEnd =>
          let afterHeaders := headerEnd + 4
          let headerBlock := head.take afterHeaders
          match parseRequestLine headerBlock with
          | none => badRequest
          | some (method, path) =>
              serve handler headerBlock
                (fun length => receiveBody length (head.drop afterHeaders) client) method path

end Creek.Leaf.JsonRpcHttp
