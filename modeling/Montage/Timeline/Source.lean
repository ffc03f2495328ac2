import Montage.Value

/-!
Where the media of a clip come from.
-/

namespace Montage

/-- A path in the storage or an address, with the type of the content. The fields hold what the
snapshot gives, whatever its kind. -/
structure Source where
  url : Value
  storagePath : Value
  contentType : Value
  deriving Inhabited

namespace Source

def isImage (s : Source) : Bool :=
  match s.contentType with
  | .text t => Text.startsWith "image/" t
  | _ => false

def defaultExtension (s : Source) : String := if s.isImage then "jpg" else "mp4"

def isExtensionChar (c : Char) : Bool := c.isLower || c.isDigit

/-- The subtype of the content type in lower case, when it is one plain word. -/
def extension (s : Source) : String :=
  match s.contentType with
  | .text t =>
    match Text.breakOn '/' t.toList with
    | (_, none) => s.defaultExtension
    | (_, some subtype) =>
      let subtype := (Text.lower (.ofList subtype)).toList
      let word := Text.trimBlank (Text.breakOn ';' subtype).1
      if !word.isEmpty && word.all isExtensionChar then .ofList word else s.defaultExtension
  | _ => s.defaultExtension

/-- The storage path, else the address, else a note. -/
def describe (s : Source) : Value :=
  if s.storagePath.truthy then s.storagePath
  else if s.url.truthy then s.url
  else .text "(no source)"

end Source

end Montage
