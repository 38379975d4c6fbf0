import RustyPenguin.Foundation.Lines
import RustyPenguin.Files.Store
import RustyPenguin.Pkg.Resolve

/-!
# The signed repository

The package manager keeps an index of the repository and, once one is provisioned, the public key of
its publisher. An update writes the index that it downloads over the old one and checks it then; an
installation uses the index that is there. The files and the network may fail at every place: what
happens is given with each call.
-/

set_option autoImplicit false

namespace RustyPenguin.Pkg

open Foundation Files

/-! ## The index -/

/-- A word of the index, or a default. -/
def parseWords (words : List Text) : Option RepoPkg := do
  let tag ← words[0]?
  if tag ≠ "@pkg".toList then none
  else
    let name ← words[1]?
    let version := words[2]?.getD "0".toList
    let url ← words[3]?
    some
      { name := String.ofList name
        version := String.ofList version
        url := String.ofList url
        sha256 := (words[4]?.filter fun word => word ≠ "-".toList).map String.ofList
        deps := (words.drop 5).map String.ofList }

def parseLine (line : Text) : Option RepoPkg :=
  if trim line = [] ∨ (trim line).head? = some '#' then none
  else parseWords (splitWhitespace (trim line))

def RepoIndex.parse (text : String) : RepoIndex := ⟨(textLines text.toList).filterMap parseLine⟩

/-- How many of the first bytes belong to a character, or to the front of one that is cut short, and
whether they are whole. -/
def sequenceLength : Bytes → Nat × Bool
  | [] => (0, false)
  | a :: rest =>
    let tail (k : Nat) : Bool := match rest[k]? with
      | some b => 0x80 ≤ b && b ≤ 0xBF
      | none => false
    let second (low high : UInt8) : Bool := match rest[0]? with
      | some b => low ≤ b && b ≤ high
      | none => false
    let three (low high : UInt8) : Nat × Bool :=
      if !second low high then (1, false) else if tail 1 then (3, true) else (2, false)
    let four (low high : UInt8) : Nat × Bool :=
      if !second low high then (1, false) else if !tail 1 then (2, false)
      else if tail 2 then (4, true) else (3, false)
    if a < 0x80 then (1, true)
    else if 0xC2 ≤ a ∧ a ≤ 0xDF then if tail 0 then (2, true) else (1, false)
    else if a = 0xE0 then three 0xA0 0xBF
    else if a = 0xED then three 0x80 0x9F
    else if 0xE1 ≤ a ∧ a ≤ 0xEF then three 0x80 0xBF
    else if a = 0xF0 then four 0x90 0xBF
    else if 0xF1 ≤ a ∧ a ≤ 0xF3 then four 0x80 0xBF
    else if a = 0xF4 then four 0x80 0x8F
    else (1, false)

/-- `String::from_utf8_lossy`: what is not a character is replaced. -/
def fromUtf8Lossy : Nat → Bytes → Text
  | 0, _ | _, [] => []
  | fuel + 1, bytes =>
    let (n, whole) := sequenceLength bytes
    (match whole, fromUtf8 (bytes.take n) with
      | true, some c => c.toList
      | _, _ => ['\uFFFD']) ++ fromUtf8Lossy fuel (bytes.drop n)

/-! ## The files -/

def pkgDir : String := "/opt/rusty-penguin/packages"

/-- What the libraries compute: whether 32 bytes are a key, with the reason when they are not, whether
a signature of a message is good, and the digest of a file. -/
structure Libraries where
  fromBytes : Bytes → Except String Unit
  verifyStrict : Bytes → Bytes → Bytes → Bool
  sha256 : Bytes → Bytes

/-- What is installed, with the key and the index that were there. -/
structure Installed where
  pubkey : Option Bytes
  index : Bytes
  entry : RepoPkg
  bytes : Bytes

/-- The files of the package manager. `verified` has the key, the index and the signature of every
check that was passed; `installed` has what was unpacked. -/
structure Repo where
  cache : Option Bytes
  pubkey : Option Bytes
  sigTmp : Option Bytes
  keyTmp : Option Bytes
  downloads : String → Option Bytes
  packages : List String
  verified : List (Bytes × Bytes × Bytes)
  installed : List Installed

def Repo.setDownload (s : Repo) (path : String) (file : Option Bytes) : Repo :=
  { s with downloads := Function.update s.downloads path file }

/-- A download: whether it was started, what it leaves in its file, and whether it reports success. -/
structure Wget where
  spawned : Bool
  left : Option Bytes
  success : Bool

def Wget.ok (w : Wget) : Bool := w.spawned && w.success

/-- The file after a download. -/
def Wget.into (w : Wget) (file : Option Bytes) : Option Bytes := if w.spawned then w.left else file

/-- `fs::read`, which may fail. -/
def readFile (readable : Bool) (file : Option Bytes) : Option Bytes := if readable then file else none

/-- `fs::remove_file`, whose result is not looked at. -/
def removeFile (removed : Bool) (file : Option Bytes) : Option Bytes := if removed then none else file

def isUrl (s : String) : Bool :=
  "http://".toList.isPrefixOf s.toList || "https://".toList.isPrefixOf s.toList

/-- `verify_sig`. -/
def verifySig (lib : Libraries) (msg sig pubkey : Bytes) : Except String Unit := do
  if pubkey.length ≠ 32 then throw "repo key must be 32 bytes"
  match lib.fromBytes pubkey with
  | .error e => throw ("bad repo key: " ++ e)
  | .ok () =>
    if sig.length ≠ 64 then throw "signature must be 64 bytes"
    if lib.verifyStrict pubkey msg sig then pure () else throw "repo signature verification FAILED"

/-! ## Updating -/

/-- What happens around an update. -/
structure UpdateEnv where
  ioError : String
  mkdir : Bool
  wget : Wget
  readable : Bool
  stat : Bool
  keyReadable : Bool
  sig : Wget
  sigReadable : Bool
  removed : Bool

def updated (index : Bytes) (note : String) : Except String String :=
  .ok ("repo updated: " ++
    toString (RepoIndex.parse (String.ofList (fromUtf8Lossy index.length index))).pkgs.length ++
    " package(s)" ++ note)

/-- `update_repo`. -/
def updateRepo (lib : Libraries) (s : Repo) (url : String) (env : UpdateEnv) :
    Repo × Except String String :=
  if !env.mkdir then (s, .error env.ioError)
  else if !env.wget.spawned then (s, .error ("could not run wget: " ++ env.ioError))
  else
    let s := { s with cache := env.wget.left }
    if !env.wget.success then (s, .error ("repo update failed: " ++ url))
    else match readFile env.readable s.cache with
      | none => (s, .error env.ioError)
      | some index =>
        if s.pubkey.isSome && env.stat then
          match readFile env.keyReadable s.pubkey with
          | none => (s, .error env.ioError)
          | some pubkey =>
            let s := { s with sigTmp := env.sig.into s.sigTmp }
            if !env.sig.ok then
              ({ s with cache := removeFile env.removed s.cache },
                .error "repo is in signed mode but no .sig was available")
            else match readFile env.sigReadable s.sigTmp with
              | none => (s, .error env.ioError)
              | some sig =>
                match verifySig lib index sig pubkey with
                | .error e => ({ s with cache := removeFile env.removed s.cache }, .error e)
                | .ok () =>
                  ({ s with verified := (pubkey, index, sig) :: s.verified },
                    updated index " (signature verified)")
        else
          (s, updated index
            " (UNVERIFIED — provision /opt/rusty-penguin/repo.pub for authenticity)")

/-! ## The key -/

/-- What happens around the provisioning of a key. -/
structure KeyEnv where
  ioError : String
  mkdir : Bool
  removed : Bool
  wget : Wget
  readable : Bool
  tmpRemoved : Bool
  /-- What writing the key leaves in its file, and whether it reports success. -/
  written : Option Bytes × Bool

/-- `provision_key`. -/
def provisionKey (s : Repo) (arg : String) (env : KeyEnv) : Repo × Except String String :=
  if !env.mkdir then (s, .error env.ioError)
  else if arg = "clear" then
    ({ s with pubkey := removeFile env.removed s.pubkey },
      .ok "repo key cleared — repos are now treated as unsigned")
  else if !isUrl arg then
    (s, .error "usage: rpm key <url-to-32-byte-ed25519-pubkey | clear>")
  else
    let s := { s with keyTmp := env.wget.into s.keyTmp }
    if !env.wget.ok then (s, .error ("could not fetch key: " ++ arg))
    else match readFile env.readable s.keyTmp with
      | none => (s, .error env.ioError)
      | some bytes =>
        if bytes.length ≠ 32 then
          ({ s with keyTmp := removeFile env.tmpRemoved s.keyTmp },
            .error ("invalid key: expected 32 bytes, got " ++ toString bytes.length))
        else if env.written.2 then
          ({ s with pubkey := some bytes, keyTmp := removeFile env.tmpRemoved s.keyTmp },
            .ok ("repo key provisioned (" ++ toString bytes.length ++
              " bytes) — signed mode enabled"))
        else ({ s with pubkey := env.written.1 }, .error env.ioError)

/-! ## Installing -/

/-- What happens around the download and the unpacking of a package. -/
structure FetchEnv where
  ioError : String
  wget : Wget
  removed : Bool
  readable : Bool
  stat : Bool
  mkdir : Bool
  mkdirPkg : Bool
  opened : Bool
  unpacked : Bool
  binDir : Bool

/-- What is behind the last slash. -/
def lastComponent (path : String) : String :=
  String.ofList ((path.toList.splitOn '/').getLastD [])

def hasSuffix (suffix s : String) : Bool := suffix.toList.isSuffixOf s.toList

/-- `fetch_remote`. -/
def fetchRemote (s : Repo) (url : String) (env : FetchEnv) : Repo × Except String String :=
  let name := lastComponent url
  if name = "" then (s, .error "Could not derive filename from URL")
  else if !hasSuffix ".rpkg" name then (s, .error "URL must point to a .rpkg file")
  else
    let dest := "/tmp/" ++ name
    if !env.wget.spawned then (s, .error ("could not run wget: " ++ env.ioError))
    else if !env.wget.success then
      (s.setDownload dest (removeFile env.removed env.wget.left),
        .error ("download failed: " ++ url))
    else (s.setDownload dest env.wget.left, .ok dest)

def hexDigits (b : UInt8) : List Char := [(b.toNat / 16).digitChar, (b.toNat % 16).digitChar]

/-- `file_sha256`, of what was read. -/
def hexDigest (lib : Libraries) (bytes : Bytes) : String :=
  String.ofList ((lib.sha256 bytes).flatMap hexDigits)

def eqIgnoreAsciiCase (a b : String) : Bool := a.toList.map Char.toLower == b.toList.map Char.toLower

/-- `PackageManager::install` of a local file, for an entry of an index, which only the log keeps. -/
def installFile (s : Repo) (path : String) (index : Bytes) (entry : RepoPkg) (env : FetchEnv) :
    Repo × Except String String :=
  let pkgName := String.ofList ((lastComponent path).toList.take ((lastComponent path).length - 5))
  if !(env.stat && (s.downloads path).isSome) then
    (s, .error ("Package file not found: " ++ path))
  else if !env.mkdir then (s, .error env.ioError)
  else if !hasSuffix ".rpkg" (lastComponent path) then (s, .error "Package must end with .rpkg")
  else if pkgName ∈ s.packages ∨ pkgName ∈ ["", ".", ".."] then
    (s, .error ("Package already installed: " ++ pkgName))
  else if !env.mkdirPkg then (s, .error env.ioError)
  else
    let s := { s with packages := pkgName :: s.packages }
    match readFile env.opened (s.downloads path) with
    | none => (s, .error env.ioError)
    | some bytes =>
      let s := { s with installed := ⟨s.pubkey, index, entry, bytes⟩ :: s.installed }
      if !env.unpacked then (s, .error ("Failed to extract package: " ++ env.ioError))
      else if !env.binDir then (s, .error env.ioError)
      else (s, .ok ("Installed package: " ++ pkgName ++ " (extracted and linked)"))

/-- `is_installed`, where the directory may not be readable. -/
def isInstalled (s : Repo) (readable : String → Bool) (name : String) : Bool :=
  readable name && s.packages.any fun n => n == name || (name ++ "-").toList.isPrefixOf n.toList

/-- What happens around an installation: one environment for each package. -/
structure InstallEnv where
  readable : Bool
  dirReadable : String → Bool
  fetch : String → FetchEnv

/-- The loop over the order, with the log so far. -/
def installAll (lib : Libraries) (s : Repo) (index : Bytes) (idx : RepoIndex) (env : InstallEnv)
    (log : String) : List String → Repo × Except String String
  | [] => (s, .ok log)
  | n :: order =>
    match idx.get n with
    | none => (s, .error ("package not found: " ++ n))
    | some pkg =>
      match fetchRemote s pkg.url (env.fetch n) with
      | (s, .error e) => (s, .error e)
      | (s, .ok path) =>
        let install (log : String) : Repo × Except String String :=
          match installFile s path index pkg (env.fetch n) with
          | (s, .error e) => (s, .error e)
          | (s, .ok line) => installAll lib s index idx env (log ++ line ++ "\n") order
        match pkg.sha256 with
        | none => install log
        | some want =>
          match readFile (env.fetch n).readable (s.downloads path) with
          | none => (s, .error ("read " ++ path ++ ": " ++ (env.fetch n).ioError))
          | some bytes =>
            if eqIgnoreAsciiCase (hexDigest lib bytes) want then
              install (log ++ "  " ++ n ++ " sha256 ok\n")
            else
              (s.setDownload path (removeFile (env.fetch n).removed (s.downloads path)),
                .error ("integrity check FAILED for '" ++ n ++ "': expected " ++ want ++ ", got " ++
                  hexDigest lib bytes))

/-- `install_by_name`. -/
def installByName (lib : Libraries) (s : Repo) (name : String) (env : InstallEnv) :
    Repo × Except String String :=
  match (readFile env.readable s.cache).bind fun index => (fromUtf8 index).map (index, ·) with
  | none => (s, .error "no repo index — run `rpm update <url>` first")
  | some (index, text) =>
    let idx := RepoIndex.parse text
    match idx.resolve name (isInstalled s env.dirReadable) with
    | .error e => (s, .error e)
    | .ok order =>
      if order = [] then (s, .ok (name ++ " is already installed"))
      else match installAll lib s index idx env "" order with
        | (s, .error e) => (s, .error e)
        | (s, .ok log) =>
          (s, .ok ("installed " ++ name ++ " (+" ++ toString (order.length - 1) ++ " dep(s)):\n" ++
            log))

/-! ## Histories -/

inductive Call where
  | updateRepo (url : String) (env : UpdateEnv)
  | provisionKey (arg : String) (env : KeyEnv)
  | installByName (name : String) (env : InstallEnv)

/-- The files after a call. -/
def Repo.call (lib : Libraries) (s : Repo) : Call → Repo
  | .updateRepo url env => (Pkg.updateRepo lib s url env).1
  | .provisionKey arg env => (Pkg.provisionKey s arg env).1
  | .installByName name env => (Pkg.installByName lib s name env).1

end RustyPenguin.Pkg
