import Montage.Text.Quoted

/-!
Everything that can go wrong, by cause. `Rejection` holds the reasons that a request is refused for
and `Fault` adds what the environment and malformed values do. The wording of each cause is in
`Rejection.message`, `IoFault.message` and `Fault.message`.
-/

namespace Montage

/-- Why a request is refused. -/
inductive Rejection where
  | timeRequired
  | timeKind
  | trackKind
  | tooLarge
  | topLevel
  | formatVersion
  | missingKey (key : String)
  | required (what : String)
  | notMapping (what : String)
  | notList (what : String)
  | entriesNotMappings (what : String)
  | trackType (position : Nat)
  | trackClips (track : String)
  | overlayText (position : Nat)
  | noMatches
  | orderShape
  | noSource
  | noSegments
  | segmentShape (position : Nat)
  | segmentTimes (position : Nat)
  | segmentRange (index : String)
  | response (problem : String)
  | responseShape
  | entryShape (position : Nat)
  | entryTimes (position : Nat)
  | clipOrder
  | clipPosition (position : String)
  | noClips (purpose : String)
  | filterType (name : String)
  | noEncode
  | missingInputs (names : List String)
  | fileName (name : String)
  deriving DecidableEq, Repr

def trackKindNames : String := "video, audio, text, image"

def Rejection.message : Rejection → String
  | timeRequired => "time value is required"
  | timeKind => "time values must be int, float, or timecode string"
  | trackKind => "track kind must be one of " ++ trackKindNames
  | tooLarge => "input file is larger than 10MB"
  | topLevel => "input file must be a mapping at the top level"
  | formatVersion => "clipgraph must be set to 1"
  | missingKey key => "missing required key: " ++ key
  | required what => what ++ " is required"
  | notMapping what => what ++ " must be a mapping"
  | notList what => what ++ " must be a list"
  | entriesNotMappings what => what ++ " must be mappings"
  | trackType position => s!"track {position} type must be one of " ++ trackKindNames
  | trackClips track => s!"track {track} clips must be a list"
  | overlayText position => s!"text overlay {position} requires text"
  | noMatches => "one of matches, relevance_response or indices is required"
  | orderShape => "order must be a list of clip positions"
  | noSource => "source requires url or storage_path"
  | noSegments => "transcription segments with timestamps are required"
  | segmentShape position => s!"segment {position} must be a mapping"
  | segmentTimes position => s!"segment {position} requires start and end"
  | segmentRange index => s!"segment index {index} is out of range"
  | response problem => "relevance response is not valid JSON: " ++ problem
  | responseShape => "relevance response must be a JSON array"
  | entryShape position => s!"relevance entry {position} must be an object"
  | entryTimes position => s!"relevance entry {position} requires start and end"
  | clipOrder => "clip order must list every clip position exactly once"
  | clipPosition position => "no clip at position " ++ position
  | noClips purpose => "no clips to " ++ purpose
  | filterType name => "unsupported filter type " ++ name
  | noEncode => "compiled program has no encode statement"
  | missingInputs names => "missing input data for " ++ ", ".intercalate names
  | fileName name => "engine file names must be plain names: " ++ name

/-- Why the file system refuses a path. -/
inductive IoCause where
  | notFound
  | occupied
  | notDirectory
  | isDirectory
  | nameTooLong
  | tooManyLinks
  deriving DecidableEq, Repr

structure IoFault where
  cause : IoCause
  path : String
  deriving DecidableEq, Repr

def IoCause.code : IoCause → Nat
  | notFound => 2
  | occupied => 17
  | notDirectory => 20
  | isDirectory => 21
  | nameTooLong => 36
  | tooManyLinks => 40

def IoCause.text : IoCause → String
  | notFound => "No such file or directory"
  | occupied => "File exists"
  | notDirectory => "Not a directory"
  | isDirectory => "Is a directory"
  | nameTooLong => "File name too long"
  | tooManyLinks => "Too many levels of symbolic links"

def IoFault.message (e : IoFault) : String :=
  s!"[Errno {e.cause.code}] {e.cause.text}: {Text.quoted e.path}"

/-- A value that an operation cannot use, by what is wrong with it. -/
inductive Misuse where
  /-- text that is no number, or a number outside the operation's domain -/
  | value
  /-- a kind of value that the operation does not take -/
  | kind
  /-- an operation that the kind of value does not have -/
  | operation
  /-- a number too large for the operation -/
  | range
  | index
  | key
  | zeroDivision
  | encoding
  /-- collections inside one another beyond the limit -/
  | depth
  | invalidDecimal
  | decimalOverflow
  deriving DecidableEq, Repr

def Misuse.message : Misuse → String
  | value => "value out of domain"
  | kind => "value of the wrong kind"
  | operation => "operation not available"
  | range => "number too large"
  | index => "index out of range"
  | key => "no such key"
  | zeroDivision => "division by zero"
  | encoding => "invalid text encoding"
  | depth => "nested too deeply"
  | invalidDecimal => "invalid decimal"
  | decimalOverflow => "decimal overflow"

inductive Fault where
  | rejected (reason : Rejection)
  | misuse (what : Misuse)
  | markup
  | io (fault : IoFault)
  | assetUnavailable (problem : String)
  /-- a compiled graph without a label that it has to end in -/
  | inconsistent (problem : String)
  | engineLoad (problem : String)
  | engineBusy
  | engineRun (problem logText : String) (status : Option Int)
  deriving DecidableEq, Repr

/-- The bare wording of a fault. -/
def Fault.message : Fault → String
  | rejected reason => reason.message
  | misuse what => what.message
  | markup => "malformed markup"
  | io fault => fault.message
  | assetUnavailable problem => problem
  | inconsistent problem => problem
  | engineLoad problem => problem
  | engineBusy => "an export is already running"
  | engineRun problem _ _ => problem

/-- The wording of a fault, followed by the engine's log when there is one. -/
def Fault.report : Fault → String
  | engineRun problem logText _ =>
    if logText.isEmpty then problem else problem ++ "\n" ++ logText
  | e => e.message

end Montage
