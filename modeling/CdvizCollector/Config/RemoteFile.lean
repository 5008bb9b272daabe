import CdvizCollector.Config.Value
import CdvizCollector.Lib.Text
import CdvizCollector.Lib.Traced

/-!
Files of a configuration that are read from elsewhere (`config/remote_file_adapter.rs`).

An entry whose key ends in `_rfile` refers to a file of a remote, which `[remote.*]`
defines by the type of an OpenDAL service and its parameters. The adapter replaces the
entry by one with the content of the file. OpenDAL is a parameter here; the traces hold
the files of the local filesystem that it reads on the way.
-/

namespace CdvizCollector.Config

open Lib

/-- What is used of OpenDAL. `opened` are the files of the local filesystem that are read
because the operator, or the path to read, names them. -/
structure Opendal where
  Operator : Type
  viaIter : String → List (String × String) → Except String Operator
  read : Operator → String → Except String (List UInt8)
  opened : Operator → String → List String

/-! ### Errors -/

inductive RemoteFileError where
  | invalidUri (uri : String)
  | remoteNotFound (name : String)
  | openDal (error : String)
  | invalidUtf8 (path : String)
  | io (error : String)
deriving DecidableEq, Repr

def RemoteFileError.message : RemoteFileError → String
  | .invalidUri uri =>
      "Invalid remote URI format '" ++ uri ++ "', expected '<remote_name>:///<path>'"
  | .remoteNotFound name => "Remote configuration '" ++ name ++ "' not found"
  | .openDal error => "OpenDAL operation failed: " ++ error
  | .invalidUtf8 path => "Remote file '" ++ path ++ "' contains invalid UTF-8"
  | .io error => "IO error: " ++ error

inductive ConfigError where
  /-- An error of the TOML parser, of its printer, of `serde` or of a provider. -/
  | toml (error : String)
  | fileKey
  | nonStringUri (key : String)
  | remote (error : RemoteFileError)
  | readFailed (path name : String) (error : RemoteFileError)
deriving DecidableEq, Repr

def ConfigError.message : ConfigError → String
  | .toml error => error
  | .fileKey => "config fetched from a remote source must not contain `*_file` keys (local " ++
      "file expansion); use `*_rfile` for remote-sourced file references instead"
  | .nonStringUri key => "Expected string URI for key '" ++ key ++ "', found non-string value"
  | .remote error => error.message
  | .readFailed path name error =>
      "Failed to read remote file '" ++ path ++ "' from '" ++ name ++ "': " ++ error.message

/-- What is done to build a configuration; the trace is of local files. -/
abbrev Run := Traced ConfigError String

/-! ### Remotes -/

structure RemoteConfig where
  serviceType : String
  parameters : List (String × String)
deriving DecidableEq, Repr

/-- A value of a table that is deserialized as a string. -/
def asString : String × Value → Except ConfigError (String × String)
  | (key, .str s) => .ok (key, s)
  | _ => .error (.toml "invalid type, expected a string")

/-- `RemoteConfig::deserialize`: the parameters are flattened into the table. -/
def RemoteConfig.deserialize : Value → Except ConfigError RemoteConfig
  | .dict entries =>
      match entries.lookup "type" with
      | some (.str serviceType) => do
          let parameters ← (Assoc.remove "type" entries).mapM asString
          return ⟨serviceType, parameters⟩
      | some _ => .error (.toml "invalid type, expected a string")
      | none => .error (.toml "missing field `type`")
  | _ => .error (.toml "invalid type, expected struct RemoteConfig")

abbrev Remotes := List (String × RemoteConfig)

def extractRemoteConfigs (config : Dict) : Except ConfigError Remotes :=
  match config.lookup "remote" with
  | some (.dict remotes) =>
      remotes.mapM fun entry => do
        let remote ← RemoteConfig.deserialize entry.2
        return (entry.1, remote)
  | _ => .ok []

/-- What stands before and after the first occurrence of a pattern. -/
def splitPattern (pattern : List Char) : List Char → Option (List Char × List Char)
  | [] => if pattern = [] then some ([], []) else none
  | c :: cs =>
      if pattern.isPrefixOf (c :: cs) then some ([], (c :: cs).drop pattern.length)
      else (splitPattern pattern cs).map fun parts => (c :: parts.1, parts.2)

structure RemoteUri where
  remoteName : String
  path : String
deriving DecidableEq, Repr

def RemoteUri.parse (uri : String) : Except RemoteFileError RemoteUri :=
  match splitPattern ":///".toList uri.toList with
  | some (remoteName, path) => .ok ⟨String.ofList remoteName, String.ofList path⟩
  | none => .error (.invalidUri uri)

/-- The address of a repository, with the directory below it that is the root. -/
def githubUri (owner repo : String) (root : Option String) : String :=
  match root with
  | some root =>
      if root = "" then "github://" ++ owner ++ "/" ++ repo
      else "github://" ++ owner ++ "/" ++ repo ++ "/" ++ root
  | none => "github://" ++ owner ++ "/" ++ repo

def buildOperator (opendal : Opendal) (remote : RemoteConfig) :
    Except RemoteFileError opendal.Operator :=
  let viaIter := fun uri parameters => (opendal.viaIter uri parameters).mapError .openDal
  if (splitPattern "://".toList remote.serviceType.toList).isSome then
    viaIter remote.serviceType remote.parameters
  else if remote.serviceType = "github" then
    match remote.parameters.lookup "owner", remote.parameters.lookup "repo" with
    | none, _ => .error (.io "github remote requires 'owner'")
    | some _, none => .error (.io "github remote requires 'repo'")
    | some owner, some repo =>
        viaIter (githubUri owner repo (remote.parameters.lookup "root"))
          (remote.parameters.filter fun entry =>
            !(entry.1 = "owner" || entry.1 = "repo" || entry.1 = "root"))
  else viaIter remote.serviceType remote.parameters

/-- The text of a file, once there is an operator. -/
def readText (opendal : Opendal) (operator : opendal.Operator) (path : String) :
    Traced RemoteFileError String String :=
  ⟨opendal.opened operator path,
    match opendal.read operator path with
    | .error e => .error (.openDal e)
    | .ok bytes =>
        match Text.decodeUtf8 bytes with
        | some content => .ok content
        | none => .error (.invalidUtf8 path)⟩

def readRemoteFile (opendal : Opendal) (remote : RemoteConfig) (path : String) :
    Traced RemoteFileError String String :=
  match buildOperator opendal remote with
  | .error e => .fail e
  | .ok operator => readText opendal operator path

/-! ### References -/

def suffix : String := "_rfile"

def isReference (key : String) : Bool := endsWith suffix key

/-- `str::strip_suffix` of a key that has it. -/
def stripSuffix (key : String) : String :=
  String.ofList (key.toList.take (key.toList.length - suffix.toList.length))

/-- The content of the file an entry refers to. -/
def resolve (opendal : Opendal) (remotes : Remotes) (key : String) (value : Value) :
    Run String := do
  let .str uri := value | .fail (.nonStringUri key)
  let uri ← .ofExcept ((RemoteUri.parse uri).mapError .remote)
  let some remote := remotes.lookup uri.remoteName
    | .fail (.remote (.remoteNotFound uri.remoteName))
  (readRemoteFile opendal remote uri.path).mapError (.readFailed uri.path uri.remoteName)

/-- A step of the loop over the keys to process. -/
def processKey (opendal : Opendal) (remotes : Remotes) (dict : Dict) (key : String) :
    Run Dict :=
  match dict.lookup key with
  | none => pure dict
  | some value => do
      let content ← resolve opendal remotes key value
      return Assoc.insert (stripSuffix key) (.str content) (Assoc.remove key dict)

/-- A step of the loop over the values: only tables are gone into. -/
def processNested (process : Dict → Run Dict) (entry : String × Value) : Run (String × Value) :=
  match entry.2 with
  | .dict nested => do
      let nested ← process nested
      return (entry.1, .dict nested)
  | _ => return entry

/-- `process_dict`; `depth` bounds how deep tables are nested. -/
def processDict (opendal : Opendal) (remotes : Remotes) : ℕ → Dict → Run Dict
  | 0, dict => pure dict
  | depth + 1, dict => do
      let keysToProcess := (dict.map Prod.fst).filter isReference
      let dict ← keysToProcess.foldlM (processKey opendal remotes) dict
      dict.mapM (processNested (processDict opendal remotes depth))

/-- `RemoteFileAdapter::data`, with `process_map`. The provider is asked twice: for the
data, and as a figment for the definitions of the remotes. -/
def remoteFileAdapter (opendal : Opendal) (provider : Run Dict) : Run Dict := do
  let dict ← provider
  let baseConfig ← provider
  let remotes ← .ofExcept (extractRemoteConfigs baseConfig)
  let dict ← processDict opendal remotes (nesting dict + 1) dict
  return Assoc.remove "remote" dict

end CdvizCollector.Config
