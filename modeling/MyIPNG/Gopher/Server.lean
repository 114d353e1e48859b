import MyIPNG.Utils.Str

/-!
# The gopher handler

`process_gopher_request` of `gopher_server.cpp`: the thread that answers one gopher request. It
takes chunks from the client until there is a line end in what it has, and serves the file or the
menu of the directory that the selector names. All paths are made canonical by `realpath` and
compared with the base path of the server.

The file system is a parameter. It gives for a path what `realpath`, `stat`, `opendir` and `open`
with `read` give. What the handler does is a list of events.
-/

set_option autoImplicit false
set_option relaxedAutoImplicit false

namespace MyIPNG.Gopher

open Utils

/-! ### Paths and the file system -/

/-- The byte between the names of a path. -/
def slash : UInt8 := 47

/-- What a function that takes a `char *` sees of a text. -/
def cStr (text : List UInt8) : List UInt8 := text.takeWhile (· ≠ 0)

/-- A name in a path: not empty, neither `.` nor `..`, and without a separator or an end. -/
def IsName (name : List UInt8) : Prop :=
  name ≠ [] ∧ name ≠ ascii "." ∧ name ≠ ascii ".." ∧ slash ∉ name ∧ 0 ∉ name

instance (name : List UInt8) : Decidable (IsName name) := inferInstanceAs (Decidable (_ ∧ _))

/-- An absolute path of names. -/
def Canonical (path : List UInt8) : Prop :=
  path = [slash] ∨
    ∃ names : List (List UInt8), (∀ name ∈ names, IsName name) ∧ names ≠ [] ∧
      path = names.flatMap (slash :: ·)

/-- What `stat` tells: the mode and the size. -/
structure Stat where
  mode : UInt32
  size : ℕ
deriving DecidableEq, Repr

/-- `d_type` of a directory entry. -/
inductive DType
  | dir
  | reg
  | lnk
  | other
deriving DecidableEq, Repr

/-- A file system. A path that `realpath` gives is canonical, and it is its own canonical path. -/
structure FileSystem where
  realpath : List UInt8 → Option (List UInt8)
  stat : List UInt8 → Option Stat
  opendir : List UInt8 → Option (List (List UInt8 × DType))
  openFile : List UInt8 → Option (List UInt8)
  canonical : ∀ {path target}, realpath path = some target → Canonical target
  idempotent : ∀ {path target}, realpath path = some target → realpath target = some target

def sIfdir : UInt32 := 0x4000

def sIfreg : UInt32 := 0x8000

/-! ### The handler -/

/-- What the handler does. -/
inductive GopherEvent
  | listed (path : List UInt8)
  | opened (path : List UInt8)
  | sent (bytes : List UInt8)
  | fin
deriving DecidableEq, Repr

/-- The extension of a file name with at least four bytes. -/
def extensionOf (name : List UInt8) : List UInt8 :=
  if 4 ≤ name.length ∧ 46 ∈ name then
    46 :: (name.reverse.takeWhile (· ≠ 46)).reverse
  else []

/-- The type of a file in a menu. -/
def itemType (ext : List UInt8) : List UInt8 :=
  if ext = ascii ".txt" ∨ ext = ascii ".html" ∨ ext = ascii ".htm" then ascii "0"
  else if ext = ascii ".png" ∨ ext = ascii ".jpg" ∨ ext = ascii ".jpeg" then ascii "I"
  else if ext = ascii ".gif" then ascii "g"
  else ascii "9"

/-- The line of a menu for a directory entry. -/
def menuReply (relPath hostname : List UInt8) (allowParentDir : Bool)
    (entry : List UInt8 × DType) : List UInt8 :=
  let name := entry.1
  if (name = ascii "." ∨ name = ascii "..") ∧ allowParentDir = false then []
  else match entry.2 with
  | .dir => ascii "1" ++ relPath ++ ascii "/" ++ name
  | .reg | .lnk =>
    itemType (extensionOf name) ++ name ++ ascii "\t" ++ relPath ++ ascii "/" ++ name ++
      ascii "\t" ++ hostname ++ ascii "\t70\r\n"
  | .other => []

/-- `send_menu`. -/
def sendMenu (fs : FileSystem) (basePath relPath : List UInt8) (allowParentDir : Bool)
    (hostname : List UInt8) : List GopherEvent :=
  match fs.opendir (cStr (basePath ++ relPath)) with
  | none => [.sent (ascii "3666\r\n")]
  | some entries =>
    let doc := entries.flatMap (menuReply relPath hostname allowParentDir)
    [.listed (cStr (basePath ++ relPath)), .sent (if doc = [] then ascii "3666\r\n" else doc)]

/-- The loop that sends a file of a given length, until it is done, a read is short or a send is
refused. -/
def sendLoop (sendOk : ℕ → Bool) (sends : ℕ) (content : List UInt8) (length : ℕ) :
    List GopherEvent :=
  if length = 0 then []
  else if content.length < min length 4096 ∨ sendOk sends = false then []
  else .sent (content.take (min length 4096)) ::
    sendLoop sendOk (sends + 1) (content.drop (min length 4096)) (length - min length 4096)
termination_by length
decreasing_by omega

/-- The part of the handler for a path that begins with the base path. -/
def servePath (fs : FileSystem) (basePath hostname : List UInt8) (sendOk : ℕ → Bool)
    (path : List UInt8) : List GopherEvent :=
  match fs.stat (cStr path) with
  | none => []
  | some st =>
    if st.mode &&& sIfdir ≠ 0 then
      sendMenu fs basePath (path.drop basePath.length) true hostname
    else if st.mode &&& sIfreg ≠ 0 then
      match fs.openFile (cStr path) with
      | none => []
      | some content => .opened (cStr path) :: sendLoop sendOk 0 content st.size
    else []

/-- The part of the handler behind the request. -/
def serve (fs : FileSystem) (basePath hostname : List UInt8) (sendOk : ℕ → Bool)
    (selector : List UInt8) : List GopherEvent :=
  if selector = [] then sendMenu fs basePath [] false hostname
  else
    let path := (fs.realpath (cStr (basePath ++ ascii "/" ++ selector))).getD []
    if path.take basePath.length ≠ basePath then []
    else servePath fs basePath hostname sendOk path

/-- The loop over the chunks: all that has come when there is a line end in it, or nothing when it
still waits for one. -/
def receiveLine (recvBuffer : List UInt8) : List (List UInt8) → Option (List UInt8)
  | [] => none
  | incoming :: chunks =>
    if find (ascii "\r\n") (recvBuffer ++ incoming) = none then
      receiveLine (recvBuffer ++ incoming) chunks
    else some (recvBuffer ++ incoming)

/-- The selector of a request: what has come without the last two bytes. -/
def selectorOf (chunks : List (List UInt8)) : Option (List UInt8) :=
  (receiveLine [] chunks).map fun recvBuffer ↦ recvBuffer.take (recvBuffer.length - 2)

/-- `process_gopher_request`, or nothing when the request is not complete. -/
def processGopherRequest (fs : FileSystem) (basePath hostname : List UInt8) (sendOk : ℕ → Bool)
    (chunks : List (List UInt8)) : Option (List GopherEvent) :=
  (selectorOf chunks).map fun selector ↦
    serve fs basePath hostname sendOk selector ++ [.fin]

end MyIPNG.Gopher
