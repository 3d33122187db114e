import Mathlib.Data.Finset.Card
import OpenWbem.Monitor.Privileges

/-!
# The privilege monitor

The class `Monitor`: a process with privileges that performs actions for a process without them. It
reads requests, one after the other, checks each one against the privileges that the configuration
grants, and performs it. The state keeps the processes that were spawned, the paths that are known
to be secure, and whether the monitor is to quit. The events are a log of what the monitor did.

A request is taken as it was read from the connection. If the connection fails, the monitor quits,
so that its run is one with fewer requests. What the system answers while a request is handled is a
parameter.

## Main definitions

* `Request`, `System` — a request, and the answers of the system while it is handled.
* `State` — the state of a monitor.
* `handle`, `runBody` — the handler of a request, and the loop.
* `Event.Mediated` — an action is one that the privileges allow.
-/

namespace OpenWbem.Monitor

/-- The text that a system call is given: it ends before the first zero. -/
def cStr (s : ByteStr) : ByteStr := s.takeWhile (· ≠ 0)

/-! ### Exceptions -/

/-- `PrivilegeManager::ErrorCodes`, and the errors of the system below them. -/
inductive ErrorCode where
  | errno (n : Int32)
  | unknown
  | operationFailed
  | invalidOperation
  | invalidPath
  | invalidSize
  | invalidParameter
  | invalidSecurity
  | insufficientPrivileges
  | alreadyInitialized
deriving DecidableEq

namespace ErrorCode

/-- The number of an error. -/
def value : ErrorCode → Int
  | errno n => n.toInt
  | unknown => 65537
  | operationFailed => 65538
  | invalidOperation => 131073
  | invalidPath => 131074
  | invalidSize => 131075
  | invalidParameter => 131076
  | invalidSecurity => 131077
  | insufficientPrivileges => 131078
  | alreadyInitialized => 131079

/-- `MONITOR_FATAL_ERROR_START` -/
def monitorFatalErrorStart : Int := 131072

/-- The monitor quits after such an error. -/
def isFatal (e : ErrorCode) : Bool := monitorFatalErrorStart ≤ e.value

end ErrorCode

/-- An exception: its type, its text and its error code. -/
structure Failure where
  type : ByteStr
  what : ByteStr
  code : ErrorCode

/-- A `CheckException`. -/
def checkException (msg : ByteStr) (err : ErrorCode) : Failure :=
  ⟨text "CheckException", cStr msg, err⟩

/-! ### Requests -/

/-- `ProcId` -/
abbrev ProcId := Int32

/-- `PrivilegeManager::OpenFlags` -/
abbrev OpenFlags := UInt32

namespace OpenFlags

def flagIn : OpenFlags := 1
def flagOut : OpenFlags := 2
def flagApp : OpenFlags := 8
def iota : OpenFlags := 15
def posixNonblock : OpenFlags := 64

end OpenFlags

/-- What `run_body` reads: a command and its arguments. -/
inductive Request where
  | openFile (path : ByteStr) (flags : OpenFlags) (perms : UInt32)
  | stat (path : ByteStr)
  | lstat (path : ByteStr)
  | readDir (dirpath : ByteStr) (omitSpecial : Bool)
  | readLink (lpath : ByteStr)
  | rename (oldPath newPath : ByteStr)
  | removeFile (path : ByteStr)
  | removeDirectory (path : ByteStr)
  | monitoredSpawn (execPath appName : ByteStr) (argv envp : List ByteStr)
  | monitoredUserSpawn (execPath appName : ByteStr) (argv envp : List ByteStr) (userName : ByteStr)
  | userSpawn (execPath : ByteStr) (argv envp : List ByteStr) (userName workingDir : ByteStr)
  | kill (pid : ProcId) (sig : Int32)
  | pollStatus (pid : ProcId)
  | done
  | unknown (cmd : Int32)

/-- The arguments of a request that are paths to act upon. -/
def Request.paths : Request → List ByteStr
  | openFile path _ _ | stat path | lstat path | readDir path _ | readLink path | removeFile path
  | removeDirectory path | monitoredSpawn path _ _ _ | monitoredUserSpawn path _ _ _ _
  | userSpawn path _ _ _ _ => [path]
  | rename oldPath newPath => [oldPath, newPath]
  | kill _ _ | pollStatus _ | done | unknown _ => []

/-- What is sent after `E_OK`. -/
inductive Payload where
  | handle (descriptor : Int32)
  | statbuf (bytes : ByteStr)
  | entries (names : List ByteStr)
  | link (target : ByteStr)
  | renamed
  | removed (ok : Bool) (errno : Int32)
  | process (inHandle outHandle errHandle : Int32) (pid : ProcId)
  | killed (rv : Int32)
  | status (wpid : ProcId) (status : Int32)
  | nothing

/-! ### Actions -/

/-- The access modes of `open`. -/
inductive Access where
  | rdonly
  | wronly
  | rdwr
deriving DecidableEq

/-- The flags of `open`. -/
structure PosixFlags where
  access : Access
  creat : Bool
  trunc : Bool
  append : Bool
  nonblock : Bool
deriving DecidableEq

namespace PosixFlags

/-- A descriptor can read. -/
def reads (f : PosixFlags) : Bool := f.access ≠ .wronly

/-- A descriptor can overwrite what is in the file, or the file is emptied. -/
def overwrites (f : PosixFlags) : Bool := f.access ≠ .rdonly && !f.append || f.trunc

/-- A descriptor can only append. -/
def appends (f : PosixFlags) : Bool := f.access ≠ .rdonly && f.append

end PosixFlags

/-- As whom an executable is spawned. -/
inductive SpawnKind where
  | monitored (appName : ByteStr)
  | monitoredUser (appName userName : ByteStr)
  | user (userName workingDir : ByteStr)

/-- What the monitor does: actions with the arguments of the system calls, and the report that a
process has terminated. -/
inductive Event where
  | openFile (path : ByteStr) (flags : PosixFlags) (perms : Option UInt32)
  | stat (path : ByteStr)
  | lstat (path : ByteStr)
  | readDir (path : ByteStr)
  | readLink (path : ByteStr)
  | rename (oldPath newPath : ByteStr)
  | removeFile (path : ByteStr)
  | removeDirectory (path : ByteStr)
  | spawn (kind : SpawnKind) (path : ByteStr) (argv envp : List ByteStr) (pid : Option ProcId)
  | kill (pid : ProcId) (sig : Int32)
  | wait (pid : ProcId)
  | terminated (pid : ProcId)

/-- `FileSystem::Path::ESecurity` -/
inductive ESecurity where
  | insecure
  | secureFile
  | secureDir
deriving DecidableEq

/-- A process that was spawned: its handles and its number. Numbers of processes are positive, and
`1` is the number of the first process of the system. -/
structure Process where
  inHandle : Int32
  outHandle : Int32
  errHandle : Int32
  pid : ProcId
  pid_gt : 1 < pid

/-- What the system answers while a request is handled. -/
structure System where
  /-- The result of `open`. -/
  descriptor : Int32
  /-- The result of `stat` and `lstat`. -/
  result : Int32
  errno : Int32
  /-- The text of an exception with an error of the system. -/
  errnoText : ByteStr → Int32 → ByteStr
  statbuf : ByteStr
  /-- `FileSystem::getDirectoryContents` -/
  directory : Option (List ByteStr)
  /-- `FileSystem::readSymbolicLink` -/
  link : Except Failure ByteStr
  /-- The result of `renameFile`, `removeFile` and `removeDirectory`. -/
  ok : Bool
  /-- `FileSystem::Path::security` -/
  security : ByteStr → Except Failure ESecurity
  /-- `FileSystem::Path::security`, relative to a directory. -/
  securityIn : ByteStr → ByteStr → Except Failure ESecurity
  /-- The result of `dup`. -/
  dup : Int32
  /-- `Exec::spawn` -/
  spawn : Except Failure Process
  /-- The result of `kill`. -/
  killed : Int32
  /-- The result of `waitpid`, when it is not interrupted. -/
  wpid : ProcId
  status : Int32
  /-- The status says that the process has terminated. -/
  terminated : Bool

/-! ### The state -/

/-- `StringCache` -/
structure StringCache where
  set : Finset ByteStr
  fifo : List ByteStr

namespace StringCache

/-- Make room: the entry that was inserted first goes first. -/
def evict (maxSize : ℕ) (set : Finset ByteStr) : List ByteStr → StringCache
  | [] => ⟨set, []⟩
  | s :: fifo => if maxSize < set.card then evict maxSize (set.erase s) fifo else ⟨set, s :: fifo⟩

/-- `StringCache::insert` -/
def insert (maxSize : ℕ) (c : StringCache) (s : ByteStr) : StringCache :=
  if s ∈ c.set then c
  else
    let c' := evict maxSize (Insert.insert s c.set) c.fifo
    { c' with fifo := c'.fifo ++ [s] }

end StringCache

/-- The parts of `Monitor` that change, and the events so far, the latest first. -/
structure State where
  procMap : Finset ProcId
  securePaths : StringCache
  secureDirs : StringCache
  done : Bool
  events : List Event

/-- A new monitor. -/
def State.initial : State := ⟨∅, ⟨∅, []⟩, ⟨∅, []⟩, false, []⟩

/-- What a monitor is constructed with: the privileges, the environment, and the limits of the
platform. -/
structure Config where
  priv : Privileges
  base : BaseEnvironment
  maxPathLength : ℕ
  maxArgLength : ℕ

/-- Handlers work on the state, and may throw. -/
abbrev Handler (α : Type) := Prog State Failure α

/-- `CHECKARGS`: the monitor quits after a fatal error. -/
def checkArgs (tst : Bool) (msg : ByteStr) (err : ErrorCode) : Handler PUnit :=
  if tst then pure ⟨⟩
  else do
    if err.isFatal then modify fun m => { m with done := true }
    throw (checkException msg err)

/-- `CHECK` -/
def check (tst : Bool) (msg : ByteStr) (err : ErrorCode) : Handler PUnit :=
  if tst then pure ⟨⟩ else throw (checkException (text "PrivilegeManager::" ++ msg) err)

/-- `CHECK_ERRNO` -/
def checkErrno (sys : System) (tst : Bool) (msg : ByteStr) : Handler PUnit :=
  if tst then pure ⟨⟩
  else throw ⟨text "CheckException",
    sys.errnoText (cStr (text "PrivilegeManager::" ++ msg)) sys.errno, .errno sys.errno⟩

/-- An action is performed. -/
def perform (e : Event) : Handler PUnit := modify fun m => { m with events := e :: m.events }

/-- A function of a library that may throw. -/
def call {α : Type} (x : Except Failure α) : Handler α :=
  match x with
  | .ok v => pure v
  | .error e => throw e

/-! ### Handlers -/

section Handlers

variable (cfg : Config)

/-- `force_valid_path` -/
def forceValidPath (path : ByteStr) (op : String) : Handler ByteStr := do
  checkArgs (path.length ≤ cfg.maxPathLength) (text op ++ text ": path argument too long")
    .invalidPath
  checkArgs (path.head? = some 47)
    (text op ++ text ": path argument must be an absolute path.  path=\"" ++ path ++ text "\"")
    .invalidPath
  let path := normalizePath path
  checkArgs (!containsDoubleDots path)
    (text op ++ text ": path argument must not contain \"..\".  path=\"" ++ path ++ text "\"")
    .invalidPath
  return path

/-- `has_open_priv` -/
def hasOpenPriv (path : ByteStr) (flags : OpenFlags) (priv : Privileges) : Bool :=
  if flags &&& OpenFlags.flagIn ≠ 0 ∧ !priv.openRead.matchPath path then false
  else if flags &&& OpenFlags.flagApp ≠ 0 then
    priv.openAppend.matchPath path || priv.openWrite.matchPath path
  else if flags &&& OpenFlags.flagOut ≠ 0 ∧ !priv.openWrite.matchPath path then false
  else true

/-- The flags of `open` for the flags of a request, and whether permissions are passed. -/
def posixFlags (flags : OpenFlags) : Option (PosixFlags × Bool) :=
  let nonblock := decide (flags &&& OpenFlags.posixNonblock ≠ 0)
  match (flags &&& OpenFlags.iota).toNat with
  | 1 => some (⟨.rdonly, false, false, false, nonblock⟩, false)
  | 2 => some (⟨.wronly, true, true, false, nonblock⟩, true)
  | 6 => some (⟨.wronly, true, true, false, nonblock⟩, true)
  | 10 => some (⟨.wronly, true, false, true, nonblock⟩, true)
  | 3 => some (⟨.rdwr, false, false, false, nonblock⟩, false)
  | 7 => some (⟨.rdwr, true, true, false, nonblock⟩, true)
  | 11 => some (⟨.rdwr, true, false, true, nonblock⟩, true)
  | _ => none

/-- `Monitor::open` -/
def openFile (sys : System) (path : ByteStr) (flags : OpenFlags) (perms : UInt32) :
    Handler Payload := do
  let path ← forceValidPath cfg path "open"
  checkArgs (hasOpenPriv path flags cfg.priv)
    (text "open: insufficient privileges: file=\"" ++ path ++ text "\" flags=" ++
      number flags.toNat ++ text ", perms=" ++ number perms.toNat) .insufficientPrivileges
  match posixFlags flags with
  | some (pflags, withPerms) =>
    perform (.openFile (cStr path) pflags (if withPerms then some perms else none))
  | none =>
    checkArgs false (text "open: illegal flags parameter: " ++ number perms.toNat) .invalidParameter
  checkErrno sys (0 ≤ sys.descriptor) (text "open: \"" ++ path ++ text "\"")
  return .handle sys.descriptor

/-- What `Monitor::stat` and `Monitor::lstat` have in common. -/
def statWith (sys : System) (op : String) (event : ByteStr → Event) (path : ByteStr) :
    Handler Payload := do
  let path ← forceValidPath cfg path op
  checkArgs (cfg.priv.stat.matchPath path)
    (text op ++ text ": insufficient privileges: file=\"" ++ path ++ text "\"")
    .insufficientPrivileges
  perform (event (cStr path))
  checkErrno sys (sys.result = 0) (text op ++ text ": \"" ++ path ++ text "\"")
  return .statbuf sys.statbuf

/-- `Monitor::stat` -/
def stat (sys : System) (path : ByteStr) : Handler Payload := statWith cfg sys "stat" .stat path

/-- `Monitor::lstat` -/
def lstat (sys : System) (path : ByteStr) : Handler Payload := statWith cfg sys "lstat" .lstat path

/-- `is_special_direntry` -/
def isSpecialDirentry (s : ByteStr) : Bool := s = [46] || s = [46, 46]

/-- `Monitor::read_dir` -/
def readDir (sys : System) (dirpath : ByteStr) (omitSpecial : Bool) : Handler Payload := do
  let dirpath ← forceValidPath cfg dirpath "readDirectory"
  checkArgs (cfg.priv.readDir.matchDir dirpath)
    (text "readDirectory: insufficient privileges: dirpath=\"" ++ dirpath ++ text "\" opt=" ++
      number (if omitSpecial then 1 else 0)) .insufficientPrivileges
  perform (.readDir (cStr dirpath))
  check sys.directory.isSome (text "readDirectory: could not read " ++ dirpath) .operationFailed
  let dirEntries := sys.directory.getD []
  return .entries (if omitSpecial then dirEntries.filter (!isSpecialDirentry ·) else dirEntries)

/-- `Monitor::read_link` -/
def readLink (sys : System) (lpath : ByteStr) : Handler Payload := do
  let lpath ← forceValidPath cfg lpath "readLink"
  checkArgs (cfg.priv.readLink.matchPath lpath)
    (text "readLink: insufficient privileges: path=\"" ++ lpath ++ text "\"")
      .insufficientPrivileges
  perform (.readLink (cStr lpath))
  let s ← call sys.link
  return .link s

/-- `Monitor::rename` -/
def rename (sys : System) (oldPath newPath : ByteStr) : Handler Payload := do
  let oldPath ← forceValidPath cfg oldPath "rename"
  checkArgs (cfg.priv.renameFrom.matchPath oldPath)
    (text "rename: insufficient privileges for source path: " ++ oldPath) .insufficientPrivileges
  let newPath ← forceValidPath cfg newPath "rename"
  checkArgs (cfg.priv.renameTo.matchPath newPath)
    (text "rename: insufficient privileges for dest path: " ++ newPath) .insufficientPrivileges
  perform (.rename (cStr oldPath) (cStr newPath))
  check sys.ok (text "rename: could not rename " ++ oldPath ++ text " to " ++ newPath)
    .operationFailed
  return .renamed

/-- `Monitor::removeFile` -/
def removeFile (sys : System) (path : ByteStr) : Handler Payload := do
  let path ← forceValidPath cfg path "removeFile"
  checkArgs (cfg.priv.removeFile.matchPath path)
    (text "removeFile: insufficient privileges: path=\"" ++ path ++ text "\"")
      .insufficientPrivileges
  perform (.removeFile (cStr path))
  return .removed sys.ok sys.errno

/-- `Monitor::removeDirectory` -/
def removeDirectory (sys : System) (path : ByteStr) : Handler Payload := do
  let path ← forceValidPath cfg path "removeDirectory"
  checkArgs (cfg.priv.removeDir.matchDir path)
    (text "removeDirectory: insufficient privileges: path=\"" ++ path ++ text "\"")
    .insufficientPrivileges
  perform (.removeDirectory (cStr path))
  return .removed sys.ok sys.errno

/-! ### Spawning -/

/-- `ipcio_get_strarr`: the strings, if their sizes with a zero for each are below the limit. -/
def ipcioGetStrarr (maxLen : ℕ) (strings : List ByteStr) : List ByteStr × Bool :=
  let out := strings.foldl (fun (out : Option (List ByteStr × ℕ)) s =>
    out.bind fun (arr, sizeAvailable) =>
      if s.length + 1 < sizeAvailable then some (arr ++ [s], sizeAvailable - (s.length + 1))
      else none) (some ([], maxLen))
  match out with
  | some (arr, _) => (arr, true)
  | none => ([], false)

/-- `CONN_DESC_ENV_VAR` -/
def connDescEnvVar : ByteStr := text "OW_PRIVILEGE_MONITOR_DESCRIPTOR"

/-- `reserved_env_var_present` -/
def reservedEnvVarPresent (env : List ByteStr) : Bool :=
  env.any fun s => (connDescEnvVar ++ [61]).isPrefixOf s

/-- `simpleUntokenize` -/
def simpleUntokenize (arr : List ByteStr) : ByteStr := (text ", ").intercalate arr

/-- `PATH_CACHE_SIZE` -/
def pathCacheSize : ℕ := 100

/-- The size that `StringCache::StringCache` makes of the one that is asked for. -/
def cacheSize (maxSize : ℕ) : ℕ := if maxSize = 0 then 1 else maxSize

/-- The directory of a path. -/
def dirName (path : ByteStr) : ByteStr :=
  if (splitPath path).1 = [47] then [47] else (splitPath path).1.dropLast

section Caches

variable (maxSize : ℕ) (sys : System) (path : ByteStr)

/-- A directory is known to be acceptable for secure files. -/
def rememberDir : Handler PUnit :=
  modify fun m => { m with secureDirs := m.secureDirs.insert (cacheSize maxSize) path }

/-- The security of a path; only what is in the directory is checked if the directory is known. -/
def pathSecurity : Handler ESecurity := do
  let m ← get
  if dirName path ∈ m.secureDirs.set then call (sys.securityIn (dirName path) (splitPath path).2)
  else do
    let sec ← call (sys.security path)
    Prog.when (sec ≠ .insecure) (rememberDir maxSize (dirName path))
    return sec

/-- `SecurePathCache::is_secure` -/
def isSecure : Handler Bool := do
  let m ← get
  if path ∈ m.securePaths.set then return true
  else do
    let sec ← pathSecurity maxSize sys path
    if sec = .insecure then return false
    else do
      modify fun m => { m with securePaths := m.securePaths.insert (cacheSize maxSize) path }
      Prog.when (sec = .secureDir) (rememberDir maxSize path)
      return true

end Caches

/-- `spawn_and_return` -/
def spawnAndReturn (sys : System) (kind : SpawnKind) (execPath : ByteStr)
    (argv envp : List ByteStr) : Handler Payload :=
  match sys.spawn with
  | .error e => do
    perform (.spawn kind (cStr execPath) argv envp none)
    throw e
  | .ok p => do
    perform (.spawn kind (cStr execPath) argv envp (some p.pid))
    modify fun m => { m with procMap := insert p.pid m.procMap }
    return .process p.inHandle p.outHandle p.errHandle p.pid

/-- The checks of the arguments and the environment that all three ways to spawn make. -/
def checkSizes (op : String) (xargv xenvp : List ByteStr × Bool) : Handler PUnit := do
  checkArgs xargv.2 (text op ++ text ": argv too large") .invalidSize
  checkArgs xenvp.2 (text op ++ text ": envp too large") .invalidSize
  checkArgs (!reservedEnvVarPresent xenvp.1)
    (text op ++ text ": reserved env var set in environment argument") .invalidParameter

/-- The end of the two ways to spawn with a monitor: a descriptor for the new monitor is passed in
the environment. -/
def spawnMonitored (sys : System) (op : String) (kind : SpawnKind) (execPath : ByteStr)
    (argv envp : List ByteStr) : Handler Payload := do
  let secure ← isSecure pathCacheSize sys execPath
  check secure (text op ++ text ": exec path " ++ execPath ++ text " is insecure") .invalidSecurity
  check (0 ≤ sys.dup) (text op ++ text ": dup failed") .operationFailed
  spawnAndReturn sys kind execPath argv
    (envp ++ [connDescEnvVar ++ [61] ++ number sys.dup.toInt])

/-- `Monitor::monitoredSpawn` -/
def monitoredSpawn (sys : System) (execPath appName : ByteStr) (argv envp : List ByteStr) :
    Handler Payload := do
  let xargv := ipcioGetStrarr cfg.maxArgLength argv
  let xenvp := ipcioGetStrarr cfg.maxArgLength envp
  let execPath ← forceValidPath cfg execPath "monitoredSpawn"
  checkArgs (appName.length ≤ cfg.maxPathLength) (text "monitoredSpawn: app name too long")
    .invalidSize
  checkSizes "monitoredSpawn" xargv xenvp
  checkArgs (cfg.priv.monitoredExec.matchExec cfg.base execPath xenvp.1 appName ||
      cfg.priv.monitoredExecCheckArgs.matchArgs cfg.base execPath xargv.1 xenvp.1 appName)
    (text "monitoredSpawn: insufficient privileges: path=\"" ++ execPath ++ text "\" app=\"" ++
      appName ++ text "\" args=\x7b" ++ simpleUntokenize xargv.1 ++ text "\x7d, env=\x7b" ++
      simpleUntokenize xenvp.1 ++ text "\x7d") .insufficientPrivileges
  spawnMonitored sys "monitoredSpawn" (.monitored appName) execPath xargv.1 xenvp.1

/-- `MAX_USER_NAME_LENGTH` -/
def maxUserNameLength : ℕ := 1024

/-- `Monitor::monitoredUserSpawn` -/
def monitoredUserSpawn (sys : System) (execPath appName : ByteStr) (argv envp : List ByteStr)
    (userName : ByteStr) : Handler Payload := do
  let xargv := ipcioGetStrarr cfg.maxArgLength argv
  let xenvp := ipcioGetStrarr cfg.maxArgLength envp
  let execPath ← forceValidPath cfg execPath "monitoredUserSpawn"
  checkArgs (userName.length ≤ maxUserNameLength) (text "monitoredUserSpawn: user name too long")
    .invalidSize
  checkArgs (appName.length ≤ cfg.maxPathLength) (text "monitoredUserSpawn: app name too long")
    .invalidSize
  checkSizes "monitoredUserSpawn" xargv xenvp
  checkArgs (cfg.priv.monitoredUserExec.matchExec cfg.base execPath xenvp.1 appName userName ||
      cfg.priv.monitoredUserExecCheckArgs.matchArgs cfg.base execPath xargv.1 xenvp.1 appName
        userName)
    (text "monitoredUserSpawn: insufficient privileges: user=" ++ userName ++ text " path=\"" ++
      execPath ++ text "\" app=\"" ++ appName ++ text "\" args=\x7b" ++ simpleUntokenize xargv.1 ++
      text "\x7d env=\x7b" ++ simpleUntokenize xenvp.1 ++ text "\x7d") .insufficientPrivileges
  spawnMonitored sys "monitoredUserSpawn" (.monitoredUser appName userName) execPath xargv.1 xenvp.1

/-- `Monitor::userSpawn` -/
def userSpawn (sys : System) (execPath : ByteStr) (argv envp : List ByteStr)
    (userName workingDir : ByteStr) : Handler Payload := do
  let xargv := ipcioGetStrarr cfg.maxArgLength argv
  let xenvp := ipcioGetStrarr cfg.maxArgLength envp
  let execPath ← forceValidPath cfg execPath "userSpawn"
  checkArgs (userName.length ≤ maxUserNameLength) (text "userSpawn: user name too long")
    .invalidSize
  checkArgs (workingDir.length ≤ cfg.maxPathLength) (text "userSpawn: working dir too long")
    .invalidSize
  checkSizes "userSpawn" xargv xenvp
  checkArgs (cfg.priv.userExec.matchExec cfg.base execPath xenvp.1 userName ||
      cfg.priv.userExecCheckArgs.matchArgs cfg.base execPath xargv.1 xenvp.1 userName)
    (text "userSpawn: insufficient privileges: user=" ++ userName ++ text " path=\"" ++ execPath ++
      text "\" dir=\"" ++ workingDir ++ text "\" args=\x7b" ++ simpleUntokenize xargv.1 ++
      text "\x7d env=\x7b" ++ simpleUntokenize xenvp.1 ++ text "\x7d") .insufficientPrivileges
  let secure ← isSecure pathCacheSize sys execPath
  check secure (text "userSpawn: exec path " ++ execPath ++ text " is insecure") .invalidSecurity
  check (workingDir.isEmpty || workingDir.head? = some 47)
    (text "userSpawn: working dir must be an absolute path") .invalidPath
  spawnAndReturn sys (.user userName workingDir) execPath xargv.1 xenvp.1

/-! ### Processes -/

/-- `Monitor::kill` -/
def kill (sys : System) (pid : ProcId) (sig : Int32) : Handler Payload := do
  let m ← get
  checkArgs (if 0 < pid then decide (pid ∈ m.procMap) else decide (-pid ∈ m.procMap))
    (text "kill: unknown process: " ++ number pid.toInt) .invalidParameter
  perform (.kill pid sig)
  return .killed (if sys.killed = 0 then 0 else sys.errno)

/-- `Monitor::pollStatus` -/
def pollStatus (sys : System) (pid : ProcId) : Handler Payload := do
  let m ← get
  checkArgs (decide (pid ∈ m.procMap)) (text "pollStatus: unknown process: " ++ number pid.toInt)
    .invalidParameter
  perform (.wait pid)
  checkErrno sys (0 ≤ sys.wpid) (text "wait_pid")
  Prog.when sys.terminated do
    modify fun m => { m with procMap := m.procMap.erase pid }
    perform (.terminated pid)
  return .status sys.wpid sys.status

/-! ### The loop -/

/-- The handler of a request, without what it sends. -/
def handle (sys : System) : Request → Handler Payload
  | .openFile path flags perms => openFile cfg sys path flags perms
  | .stat path => stat cfg sys path
  | .lstat path => lstat cfg sys path
  | .readDir dirpath omitSpecial => readDir cfg sys dirpath omitSpecial
  | .readLink lpath => readLink cfg sys lpath
  | .rename oldPath newPath => rename cfg sys oldPath newPath
  | .removeFile path => removeFile cfg sys path
  | .removeDirectory path => removeDirectory cfg sys path
  | .monitoredSpawn execPath appName argv envp => monitoredSpawn cfg sys execPath appName argv envp
  | .monitoredUserSpawn execPath appName argv envp userName =>
    monitoredUserSpawn cfg sys execPath appName argv envp userName
  | .userSpawn execPath argv envp userName workingDir =>
    userSpawn cfg sys execPath argv envp userName workingDir
  | .kill pid sig => kill sys pid sig
  | .pollStatus pid => pollStatus sys pid
  | .done | .unknown _ => do
    modify fun m => { m with done := true }
    return .nothing

/-- The prefix of what is reported about an exception. -/
def reportPrefix : Request → String
  | .openFile _ _ _ => "open: "
  | .stat _ => "stat: "
  | .lstat _ => "lstat: "
  | .readDir _ _ => "readDir: "
  | .readLink _ => "readLink: "
  | .rename _ _ => "rename: "
  | .removeFile _ => "removeFile: "
  | .removeDirectory _ => "removeDirectory: "
  | .monitoredSpawn _ _ _ _ => "monitoredSpawn: "
  | .monitoredUserSpawn _ _ _ _ _ => "monitoredUserSpawn: "
  | .userSpawn _ _ _ _ _ => "userSpawn: "
  | .kill _ _ => "kill: "
  | .pollStatus _ => "pollStatus: "
  | .done | .unknown _ => ""

/-- What is sent to the other process. -/
inductive Response where
  | ok (payload : Payload)
  | error (code : ErrorCode) (msg : ByteStr)

/-- The answer to a request; there is none to the command to quit. -/
def response : Request → Except Failure Payload → Option Response
  | .done, _ => none
  | .unknown _, _ => some (.error .invalidOperation (text "Unknown operation requested"))
  | _, .ok payload => some (.ok payload)
  | r, .error e => some (.error e.code (text (reportPrefix r) ++ e.type ++ text ": " ++ e.what))

/-- A turn of the loop of `run_body`. -/
def step (m : State) (r : Request × System) : State × Option Response :=
  let out := (handle cfg r.2 r.1).exec m
  (out.2, response r.1 out.1)

/-- `Monitor::run_body`, for the requests that are read. -/
def runBody : State → List (Request × System) → State × List Response
  | m, [] => (m, [])
  | m, r :: rs =>
    if m.done then (m, [])
    else
      let (m', resp) := step cfg m r
      let (m'', resps) := runBody m' rs
      (m'', resp.toList ++ resps)

end Handlers

/-! ### What is claimed of an action -/

/-- An absolute path without empty components, components that are one dot, or two. -/
def CleanPath (path : ByteStr) : Prop :=
  ∃ cs dir, (∀ c ∈ cs, 47 ∉ c ∧ c ≠ [] ∧ c ≠ [46] ∧ c ≠ [46, 46]) ∧ path = pathText cs dir

/-- The processes that were spawned and not yet reported as terminated. -/
def live : List Event → Set ProcId
  | [] => ∅
  | .spawn _ _ _ _ (some pid) :: log => insert pid (live log)
  | .terminated pid :: log => live log \ {pid}
  | _ :: log => live log

/-- The processes that a number stands for in a call of `kill`: a process, or a group of
processes. -/
def KillReaches (procs : Set ProcId) (pid : ProcId) : Prop :=
  (0 < pid ∧ pid ∈ procs) ∨ (pid < -1 ∧ -pid ∈ procs)

/-- **An action is one that the privileges allow.** -/
def Event.Mediated (cfg : Config) (procs : Set ProcId) : Event → Prop
  | openFile path flags _ => CleanPath path ∧
    (flags.reads → cfg.priv.openRead.matchPath path) ∧
    (flags.overwrites → cfg.priv.openWrite.matchPath path) ∧
    (flags.appends → cfg.priv.openAppend.matchPath path ∨ cfg.priv.openWrite.matchPath path)
  | stat path | lstat path => CleanPath path ∧ cfg.priv.stat.matchPath path
  | readDir path => CleanPath path ∧ cfg.priv.readDir.matchDir path
  | readLink path => CleanPath path ∧ cfg.priv.readLink.matchPath path
  | rename oldPath newPath =>
    (CleanPath oldPath ∧ cfg.priv.renameFrom.matchPath oldPath) ∧
      (CleanPath newPath ∧ cfg.priv.renameTo.matchPath newPath)
  | removeFile path => CleanPath path ∧ cfg.priv.removeFile.matchPath path
  | removeDirectory path => CleanPath path ∧ cfg.priv.removeDir.matchDir path
  | spawn (.monitored appName) path argv envp _ => CleanPath path ∧
    ∃ envp' n, envp = envp' ++ [connDescEnvVar ++ [61] ++ number n] ∧
    (cfg.priv.monitoredExec.matchExec cfg.base path envp' appName ∨
      cfg.priv.monitoredExecCheckArgs.matchArgs cfg.base path argv envp' appName)
  | spawn (.monitoredUser appName userName) path argv envp _ => CleanPath path ∧
    ∃ envp' n, envp = envp' ++ [connDescEnvVar ++ [61] ++ number n] ∧
    (cfg.priv.monitoredUserExec.matchExec cfg.base path envp' appName userName ∨
      cfg.priv.monitoredUserExecCheckArgs.matchArgs cfg.base path argv envp' appName userName)
  | spawn (.user userName _) path argv envp _ => CleanPath path ∧
    (cfg.priv.userExec.matchExec cfg.base path envp userName ∨
      cfg.priv.userExecCheckArgs.matchArgs cfg.base path argv envp userName)
  | kill pid _ => KillReaches procs pid
  | wait pid => pid ∈ procs
  | terminated _ => True

/-- Every action was one that the privileges allowed at its time. -/
def Mediates (cfg : Config) : List Event → Prop
  | [] => True
  | e :: log => e.Mediated cfg (live log) ∧ Mediates cfg log

end OpenWbem.Monitor
