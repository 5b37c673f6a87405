import DistributedStorage.Files.Server

/-! The socket file system: the server's methods, each one atomic, and the client stub with its cache
directory. A call of the client is cut at its requests. -/

namespace DistributedStorage.Files

open Library

/-- The server of the socket file system. -/
structure DSFSLogic where
  disk : String → Option FileData
  openFiles : ℤ → Option OpenFile
  fileVersions : String → Option ℕ
  nextHandle : ℤ

namespace DSFSLogic

def new (disk : String → Option FileData) : DSFSLogic := ⟨disk, fun _ => none, fun _ => none, 1⟩

def version (s : DSFSLogic) (filename : String) : ℕ := (s.fileVersions filename).getD 1

def content (s : DSFSLogic) (filename : String) : FileData := (s.disk filename).getD []

def testVersionNumber (s : DSFSLogic) (filename : String) : ℕ := s.version filename

def createFile (s : DSFSLogic) (filename : String) : DSFSLogic × Except String Unit :=
  if (s.disk filename).isSome then (s, .error "File already exists")
  else
    ({ s with
      disk := Function.update s.disk filename (some [])
      fileVersions := Function.update s.fileVersions filename (some 1) }, .ok ())

/-- The versions after a file has got its first one, if it had none. -/
def withVersion (s : DSFSLogic) (filename : String) : String → Option ℕ :=
  if s.fileVersions filename = none then Function.update s.fileVersions filename (some 1)
  else s.fileVersions

structure OpenResponse where
  fileHandle : ℤ
  fileData : FileData
  serverVersion : ℕ

def openFile (s : DSFSLogic) (filename mode : String) (fetchData : Bool) :
    DSFSLogic × Except String OpenResponse :=
  if mode ≠ "r" ∧ mode ≠ "w" then (s, .error "Mode must be 'r' or 'w'")
  else
    match s.disk filename with
    | none => (s, .error "File not found")
    | some data =>
      let t := { s with
        openFiles := Function.update s.openFiles s.nextHandle (some ⟨filename, mode⟩)
        nextHandle := s.nextHandle + 1
        fileVersions := s.withVersion filename }
      (t, .ok ⟨s.nextHandle, if fetchData then data else [], t.version filename⟩)

/-- The answer holds the version of the file, also when the handle was open for reading. -/
def closeFile (s : DSFSLogic) (handle : ℤ) (data : FileData) : DSFSLogic × Except String ℕ :=
  match s.openFiles handle with
  | none => (s, .error "Invalid file handle")
  | some info =>
    let t := { s with openFiles := Function.update s.openFiles handle none }
    let current := t.version info.filename
    if info.mode = "w" then
      ({ t with
        disk := Function.update t.disk info.filename (some data)
        fileVersions := Function.update t.fileVersions info.filename (some (current + 1)) },
        .ok (current + 1))
    else (t, .ok current)

end DSFSLogic

structure ActiveHandle where
  path : String
  filename : String
  deriving DecidableEq

structure CacheEntry where
  version : ℕ
  path : String
  deriving DecidableEq

/-- The client stub and the files of its cache directory. -/
structure DSFSClientStub where
  cacheDir : String → Option FileData
  activeHandles : ℤ → Option ActiveHandle
  cacheMetadata : String → Option CacheEntry

def cachePath (filename : String) (version : ℕ) : String :=
  filename ++ "_v" ++ toString version ++ ".bin"

/-- What `_delete_old_cached_versions` looks for. -/
def isCachedVersion (filename entry : String) : Bool :=
  (filename ++ "_v").toList.isPrefixOf entry.toList && ".bin".toList.isSuffixOf entry.toList

namespace DSFSClientStub

def new : DSFSClientStub := ⟨fun _ => none, fun _ => none, fun _ => none⟩

def deleteOldCachedVersions (k : DSFSClientStub) (filename keep : String) : DSFSClientStub :=
  { k with cacheDir := fun e => if isCachedVersion filename e ∧ e ≠ keep then none else k.cacheDir e }

/-- Whether an Open asks for the bytes, after the server has told its version. -/
def fetches (k : DSFSClientStub) (filename : String) (serverVersion : ℕ) : Bool :=
  match k.cacheMetadata filename with
  | some e => !(decide (serverVersion = e.version) && (k.cacheDir e.path).isSome)
  | none => true

/-- What Open does with the answer of the server. -/
def opened (k : DSFSClientStub) (filename : String) (fetchData : Bool) (r : DSFSLogic.OpenResponse) :
    DSFSClientStub :=
  let path := cachePath filename r.serverVersion
  if fetchData then
    let t := { k with
      cacheDir := Function.update k.cacheDir path (some r.fileData)
      cacheMetadata := Function.update k.cacheMetadata filename (some ⟨r.serverVersion, path⟩) }
    let u := t.deleteOldCachedVersions filename path
    { u with activeHandles := Function.update u.activeHandles r.fileHandle (some ⟨path, filename⟩) }
  else
    match k.cacheMetadata filename with
    | some e =>
      { k with activeHandles := Function.update k.activeHandles r.fileHandle (some ⟨e.path, filename⟩) }
    | none => k

/-- Writing into a file at an offset; a gap is filled with zeros. -/
def overwrite (old : FileData) (offset : ℕ) (data : FileData) : FileData :=
  if data = [] then old
  else (old ++ List.replicate (offset - old.length) 0).take offset ++ data ++ old.drop (offset + data.length)

/-- `none` when the handle is not active or its file is gone. -/
def write (k : DSFSClientStub) (handle : ℤ) (offset : ℕ) (data : FileData) : Option DSFSClientStub :=
  (k.activeHandles handle).bind fun h =>
    (k.cacheDir h.path).map fun old =>
      { k with cacheDir := Function.update k.cacheDir h.path (some (overwrite old offset data)) }

def read (k : DSFSClientStub) (handle : ℤ) (offset length : ℕ) : Option FileData :=
  (k.activeHandles handle).bind fun h => (k.cacheDir h.path).map fun old => (old.drop offset).take length

/-- `os.replace` -/
def replace (k : DSFSClientStub) (source target : String) : DSFSClientStub :=
  { k with cacheDir := Function.update (Function.update k.cacheDir target (k.cacheDir source)) source none }

/-- What Close does with the answer of the server. -/
def closed (k : DSFSClientStub) (h : ActiveHandle) (newVersion : ℕ) : DSFSClientStub :=
  let path := cachePath h.filename newVersion
  let t := if h.path = path then k else k.replace h.path path
  let u := { t with
    cacheMetadata := Function.update t.cacheMetadata h.filename (some ⟨newVersion, path⟩) }
  u.deleteOldCachedVersions h.filename path

end DSFSClientStub

end DistributedStorage.Files
