import Aisix.Chat
import Aisix.Mcp.Name
import Aisix.Sse.Decoder

/-!
# Aisix.ContentPart

The parts of a chat message's content, as a bridge to another wire reads them.
-/

namespace Aisix
namespace ContentPart

open Json Mcp

inductive MediaKind where
  | image
  | audio
  | file
  deriving DecidableEq

inductive MediaSource where
  | inline (mimeType data : String)
  /-- `explicit` when the caller named the type. -/
  | uri (uri : String) (mimeType : Option String) (explicit : Bool)
  deriving DecidableEq

structure Media where
  kind : MediaKind
  source : MediaSource
  deriving DecidableEq

inductive Part where
  | text (t : String)
  | media (m : Media)
  | unsupported (ty : String)
  deriving DecidableEq

/-- `str::trim`. -/
def trim (s : String) : String := String.ofList (Sse.trim s.toList)

/-- `str::to_ascii_lowercase`. -/
def toAsciiLowercase (s : String) : String := String.ofList (s.toList.map Char.toLower)

def MediaSource.scheme : MediaSource → Option String
  | .inline _ _ => none
  | .uri url _ _ => (splitOnce "://".toList url.toList).map fun parts =>
    toAsciiLowercase (String.ofList parts.1)

def normalizeMimeType (mimeType : String) : String :=
  let m := toAsciiLowercase (trim mimeType)
  if m = "image/jpg" then "image/jpeg" else m

/-- The caller's own media type. -/
def explicitMimeType (obj : Value) : Option String :=
  ((["format", "mime_type", "content_type"].findSome? (strField obj)).filter (· ≠ "")).map
    normalizeMimeType

def EXTENSION_TYPES : List (String × String) :=
  [("png", "image/png"), ("jpg", "image/jpeg"), ("jpeg", "image/jpeg"), ("webp", "image/webp"),
    ("gif", "image/gif"), ("heic", "image/heic"), ("heif", "image/heif"),
    ("pdf", "application/pdf"), ("txt", "text/plain"), ("csv", "text/csv"), ("html", "text/html"),
    ("htm", "text/html"), ("md", "text/markdown"), ("wav", "audio/wav"), ("mp3", "audio/mp3"),
    ("aac", "audio/aac"), ("ogg", "audio/ogg"), ("flac", "audio/flac"), ("m4a", "audio/m4a"),
    ("mp4", "video/mp4"), ("mov", "video/mov"), ("webm", "video/webm"), ("mpeg", "video/mpeg"),
    ("mpg", "video/mpeg"), ("avi", "video/avi"), ("wmv", "video/wmv"), ("flv", "video/x-flv"),
    ("3gp", "video/3gpp")]

def mimeTypeFromPath (url : String) : Option String :=
  let path := url.toList.takeWhile fun c => c ≠ '?' && c ≠ '#'
  let name := ((rsplitOnce ['/'] path).map Prod.snd).getD path
  (rsplitOnce ['.'] name).bind fun parts => EXTENSION_TYPES.lookup
    (toAsciiLowercase (String.ofList parts.2))

/-- The media type of a `data:` URL's header. -/
def dataUrlType (header : List Char) (explicit : Option String) : Except String String :=
  let params := header.splitOn ';'
  if params.tail.any fun p => toAsciiLowercase (String.ofList p) = "base64" then
    let declared := String.ofList (params.headD [])
    match explicit.or (if declared = "" then none else some (normalizeMimeType declared)) with
    | some mimeType => .ok mimeType
    | none => .error "a data: URL must name its media type (data:<media type>;base64,<data>)"
  else .error "a data: URL must be base64-encoded (data:<media type>;base64,<data>)"

/-- A `data:` URL is read here; another URL is only referred to. -/
def sourceFromUrl (url : String) (explicit : Option String) : Except String MediaSource :=
  if (url.toList.take 5).map Char.toLower = "data:".toList then
    match splitOnce [','] (url.toList.drop 5) with
    | some (header, data) => (dataUrlType header explicit).map fun mimeType =>
      .inline mimeType (String.ofList data)
    | none => .error "a data: URL must have the form data:<media type>;base64,<data>"
  else .ok (.uri url (explicit.or (mimeTypeFromPath url)) explicit.isSome)

def parseImageUrl (block : Value) : Except String Media :=
  let found : Option String × Option String :=
    match block.get "image_url" with
    | some (.string url) => (some url, none)
    | some (.object fields) => (strField (.object fields) "url", explicitMimeType (.object fields))
    | _ => (none, none)
  match found.1.filter (· ≠ "") with
  | some url => (sourceFromUrl url found.2).map fun source => ⟨.image, source⟩
  | none => .error "an image_url part must carry image_url.url"

def parseInputAudio (block : Value) : Except String Media :=
  let audio := (block.get "input_audio").getD .null
  match strField audio "data", strField audio "format" with
  | some data, some format =>
    .ok ⟨.audio,
      .inline (normalizeMimeType (if '/' ∈ format.toList then format else "audio/" ++ format)) data⟩
  | _, _ => .error "an input_audio part must carry input_audio.data and input_audio.format"

section Messages

-- how `format!` writes a text under `:?`
variable (debug : String → String)

def displayUri (uri : String) : String :=
  let shown :=
    if (splitOnce "://".toList uri.toList).isSome then uri.toList.takeWhile
      (fun c => c ≠ '?' && c ≠ '#') else uri.toList
  if 64 < shown.length then debug (String.ofList (shown.take 64)) ++
    "…" else debug (String.ofList shown)

def parseFile (block : Value) : Except String Media :=
  match block.get "file" with
  | none => .error "a file part must carry a file object"
  | some file =>
    let explicit := explicitMimeType file
    let source : Except String MediaSource :=
      match (strField file "file_data").filter (· ≠ "") with
      | some data =>
        if "data:".toList.isPrefixOf data.toList then sourceFromUrl data explicit
        else
          match explicit.or ((strField file "filename").bind mimeTypeFromPath) with
          | some mimeType => .ok (.inline mimeType data)
          | none =>
            .error ("a file part whose file_data is bare base64 needs file.format or a " ++
              "filename with a recognisable extension")
      | none =>
        match (strField file "file_id").filter (· ≠ "") with
        | some id =>
          if (splitOnce "://".toList id.toList).isSome then sourceFromUrl id explicit
          else .error ("file.file_id " ++ displayUri debug id ++
            " is an uploaded-file id, which this gateway cannot resolve; send the content as " ++
            "file.file_data")
        | none => .error "a file part must carry file.file_data or file.file_id"
    source.map fun source => ⟨.file, source⟩

/-- One entry of a content array; an error for a part that is malformed. -/
def parsePart (block : Value) : Except String Part :=
  match (strField block "type").getD "" with
  | "text" => .ok (.text ((strField block "text").getD ""))
  | "image_url" => (parseImageUrl block).map .media
  | "input_audio" => (parseInputAudio block).map .media
  | "file" => (parseFile debug block).map .media
  | "" => .ok (.unsupported "(missing type)")
  | other => .ok (.unsupported other)

def partError (messageIndex partIndex : Nat) (reason : String) : String :=
  "messages[" ++ toString messageIndex ++ "].content[" ++ toString partIndex ++ "]: " ++ reason

/-- A tool result carries text parts only. -/
def checkToolResultPart (messageIndex partIndex : Nat) (block : Value) : Except String Unit :=
  match parsePart debug block with
  | .error reason => .error (partError messageIndex partIndex reason)
  | .ok (.text _) => .ok ()
  | .ok _ =>
    .error (partError messageIndex partIndex ("a tool result can carry only text parts, not " ++
      debug ((strField block "type").getD "(missing type)") ++
        "; send the media in a user message instead"))

def checkToolResultParts (message : ChatMessage) (messageIndex : Nat) : Except String Unit :=
  ((message.contentBlocks.getD []).zipIdx.forM fun e => checkToolResultPart debug
    messageIndex e.2 e.1)

end Messages

end ContentPart
end Aisix
