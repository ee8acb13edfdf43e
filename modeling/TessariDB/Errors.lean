import TessariDB.Utf8

/-!
# Errors

What the client raises (`errors.py`, and `ProtocolError` of `_bytes.py`). Every class keeps
the data its exception carries; a class whose exception holds only a message keeps the
message. `Raised` collects them, together with the two exceptions of the language that
leave the client unwrapped: the `UnicodeEncodeError` of a text with a lone surrogate and the
`ValueError` of an argument refused before any byte is built.

`Raised.isTessari` is membership in `TessariError`, the class the client's own handlers
catch.
-/

namespace TessariDB

open ByteCodec Utf8

/-- The bytes did not say what this client can read, or a value cannot be written. -/
structure ProtocolError where
  message : String
  deriving DecidableEq, Repr

/-- What a refusal says to do next (§3.6). -/
inductive RefusalClass where
  | invalid
  | unauthenticated
  | forbidden
  | throttled
  | elsewhere
  | retry
  | conflict
  | unavailable
  | internal
  | unknown
  deriving DecidableEq, Repr

/-- `0` and anything past the table are `unknown`. -/
def RefusalClass.fromByte : ℕ → RefusalClass
  | 1 => .invalid
  | 2 => .unauthenticated
  | 3 => .forbidden
  | 4 => .throttled
  | 5 => .elsewhere
  | 6 => .retry
  | 7 => .conflict
  | 8 => .unavailable
  | 9 => .internal
  | _ => .unknown

/-- The value of the class as a word; any other is `unknown`. -/
def RefusalClass.fromWord (word : Str) : RefusalClass :=
  if word = ofString "invalid" then .invalid
  else if word = ofString "unauthenticated" then .unauthenticated
  else if word = ofString "forbidden" then .forbidden
  else if word = ofString "throttled" then .throttled
  else if word = ofString "elsewhere" then .elsewhere
  else if word = ofString "retry" then .retry
  else if word = ofString "conflict" then .conflict
  else if word = ofString "unavailable" then .unavailable
  else if word = ofString "internal" then .internal
  else .unknown

/-- An exception that leaves a call of this client. -/
inductive Raised where
  | protocolError (why : ProtocolError)
  | ioError (message : String)
  | tlsError (message : String)
  | notThisProtocol (message : String)
  | wrongVersion (found : ℕ × ℕ) (supported : ℕ)
  | unknownFrame (tag : ℕ)
  | tooLarge (length ceiling : ℕ)
  | truncated (message : String)
  | malformed (message : String)
  | refused (message : Str) (refusalClass : Option RefusalClass)
  | nodeTooOld (found needed : ℕ) (what : String)
  | redirectLoop (hops : ℕ)
  | staleRedirect (epoch floor : ℕ)
  | wrongNode (expected : Bytes)
  | notFollowable (name : Str)
  | tessariError (message : String)
  | unicodeEncodeError
  | valueError (message : String)
  deriving DecidableEq, Repr

/-- The class of an exception, without what it carries. -/
inductive ErrorClass where
  | protocolError
  | ioError
  | tlsError
  | notThisProtocol
  | wrongVersion
  | unknownFrame
  | tooLarge
  | truncated
  | malformed
  | refused
  | nodeTooOld
  | redirectLoop
  | staleRedirect
  | wrongNode
  | notFollowable
  | tessariError
  | unicodeEncodeError
  | valueError
  deriving DecidableEq, Repr

def Raised.errorClass : Raised → ErrorClass
  | .protocolError _ => .protocolError
  | .ioError _ => .ioError
  | .tlsError _ => .tlsError
  | .notThisProtocol _ => .notThisProtocol
  | .wrongVersion _ _ => .wrongVersion
  | .unknownFrame _ => .unknownFrame
  | .tooLarge _ _ => .tooLarge
  | .truncated _ => .truncated
  | .malformed _ => .malformed
  | .refused _ _ => .refused
  | .nodeTooOld _ _ _ => .nodeTooOld
  | .redirectLoop _ => .redirectLoop
  | .staleRedirect _ _ => .staleRedirect
  | .wrongNode _ => .wrongNode
  | .notFollowable _ => .notFollowable
  | .tessariError _ => .tessariError
  | .unicodeEncodeError => .unicodeEncodeError
  | .valueError _ => .valueError

/-- Whether `except TessariError` catches it. -/
def Raised.isTessari : Raised → Bool
  | .unicodeEncodeError => false
  | .valueError _ => false
  | _ => true

end TessariDB
