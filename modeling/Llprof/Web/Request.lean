import Llprof.Web.Libraries

namespace Llprof.Web.Request

open LittleEndian Streams Text Libraries

/-- The map of header fields, the latest assignment first. -/
abbrev Header := List (Bytes × Bytes)

namespace Header

def set (h : Header) (key value : Bytes) : Header := (key, value) :: h

def getm (h : Header) (key default : Bytes) : Bytes := (h.lookup key).getD default

end Header

/-- The lines that a loop of `getline` reads. -/
def textLines (text : Bytes) : List Bytes :=
  let ls := text.splitOn 10
  if ls.getLast? = some [] then ls.dropLast else ls

def addFields : List Bytes → Header → Option Header
  | [], result => some result
  | line :: lines, result =>
      if line = [] then
        addFields lines result
      else
        let line := if line.getLast? = some 13 then line.dropLast else line
        match find (ascii ": ") line with
        | none => none
        | some dpos => addFields lines (result.set (line.take dpos) (line.drop (dpos + 2)))

def parseHttpRequestHeader (boost : Boost) (header : Bytes) : Option Header :=
  match boost.split isSpace ((textLines header).headD []) with
  | method :: path :: version :: _ =>
      let result := Header.set [] (ascii "!method") method
      let result :=
        match find (ascii "?") path with
        | some qpos => (result.set (ascii "!path") (path.take qpos)).set (ascii "!qs") (path.drop (qpos + 1))
        | none => (result.set (ascii "!path") path).set (ascii "!qs") []
      addFields (textLines header).tail (result.set (ascii "!version") version)
  | _ => none

/-- Why no request is read: the connection has no more bytes, the header is not
understood or its length is no number. `undeliverable` marks a list of pieces that
`recv` does not return, since one is longer than what is asked for. -/
inductive Failure
  | closed
  | badHeader
  | badLexicalCast
  | undeliverable
  deriving DecidableEq, Repr

abbrev Reading := Except Failure

/-- The pieces are those that the next calls of `recv` return. -/
def recvString (maxlen : Int) : List Bytes → Reading (Bytes × List Bytes)
  | [] => .error .closed
  | buf :: pieces =>
      if buf = [] then .error .closed
      else if maxlen < buf.length then .error .undeliverable
      else .ok (buf, pieces)

def findBlank (buf : Bytes) : Option (Nat × Nat) :=
  match find [10, 10] buf with
  | some rrpos => some (rrpos, 2)
  | none => (find [13, 10, 13, 10] buf).map (fun rrpos => (rrpos, 4))

/-- The header, what has arrived of the body, and the pieces that are left. -/
def headerLoop (reqHeaderStr : Bytes) : List Bytes → Reading (Bytes × Bytes × List Bytes)
  | [] => .error .closed
  | buf :: pieces =>
      match recvString 1024 (buf :: pieces) with
      | .error e => .error e
      | .ok _ =>
          match findBlank buf with
          | some (rrpos, nrskip) => .ok (reqHeaderStr ++ buf.take rrpos, buf.drop (rrpos + nrskip), pieces)
          | none => headerLoop (reqHeaderStr ++ buf) pieces

/-- Subtraction of a `size_t` from an `int`. -/
def subLength (lenRem : Int) (length : Nat) : Int := toInt32 ((lenRem - length) % 2 ^ 32).toNat

def bodyLoop (lenRem : Int) (reqBodyStr : Bytes) : List Bytes → Reading Bytes
  | [] => if 0 < lenRem then .error .closed else .ok reqBodyStr
  | buf :: pieces =>
      if 0 < lenRem then
        match recvString lenRem (buf :: pieces) with
        | .error e => .error e
        | .ok _ => bodyLoop (subLength lenRem buf.length) (reqBodyStr ++ buf) pieces
      else
        .ok reqBodyStr

/-- What `client_handler` does between the blank line and the answer. -/
def readBody (boost : Boost) (reqHeaderStr reqBodyStr : Bytes) (pieces : List Bytes) :
    Reading (Bytes × Bytes) :=
  match parseHttpRequestHeader boost reqHeaderStr with
  | none => .error .badHeader
  | some reqHeader =>
      if reqHeader.getm (ascii "!method") [] = ascii "POST" then
        match boost.lexicalCastInt (reqHeader.getm (ascii "Content-Length") (ascii "0")) with
        | none => .error .badLexicalCast
        | some length => do
            let body ← bodyLoop (subLength length reqBodyStr.length) reqBodyStr pieces
            return (reqHeaderStr, body)
      else
        .ok (reqHeaderStr, reqBodyStr)

/-- The first part of `client_handler`: the header string and the body string. -/
def readRequest (boost : Boost) (pieces : List Bytes) : Reading (Bytes × Bytes) := do
  let (reqHeaderStr, reqBodyStr, pieces) ← headerLoop [] pieces
  readBody boost reqHeaderStr reqBodyStr pieces

end Llprof.Web.Request
