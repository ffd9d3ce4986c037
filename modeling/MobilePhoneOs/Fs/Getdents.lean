import MobilePhoneOs.Fs.Ramfs

/-!
# Listing a directory (`f_getdents` in `fs/vfs.c`)

The entries of a directory are packed as records of variable length, up to the one that does not
fit; the file's offset counts the entries that have been given out. `readdir` is the function of
the filesystem that the directory is on.
-/

namespace MobilePhoneOs.Getdents

open Ramfs (Vtype VFS_NAME_MAX)

def ENOENT : ℤ := 2
def ENOTDIR : ℤ := 20

def UX_DIRENT_ALIGN : ℕ := 8

def DT_DIR : UInt8 := 4
def DT_REG : UInt8 := 8

/-- What `readdir` stores: the name, as a C string, and the `DT_*` value. -/
structure Dirent where
  name : List UInt8
  dtype : UInt8
deriving DecidableEq

/-- `readdir` of a directory, by index; an error is the errno. -/
abbrev Readdir := ℕ → Except ℤ Dirent

/-- `ux_dirent_len` -/
def uxDirentLen (name : List UInt8) : ℕ :=
  let need := 3 + name.length + 1 -- len, type and NUL
  (need + UX_DIRENT_ALIGN - 1) / UX_DIRENT_ALIGN * UX_DIRENT_ALIGN

/-- What the call reads and writes: the file's offset and the caller's buffer. -/
structure State where
  off : ℕ
  kbuf : ℕ → UInt8
  used : ℕ

/-- A `uint16_t` in the order of the machine. -/
def le16 (n : ℕ) : List UInt8 := [UInt8.ofNat (n % 256), UInt8.ofNat (n / 256)]

/-- A record is written at `used`. -/
def State.emit (s : State) (e : Dirent) : State :=
  let reclen := uxDirentLen e.name
  let kbuf := Mem.store s.kbuf s.used (le16 (reclen % 2 ^ 16))
  let kbuf := Mem.store kbuf (s.used + 2) [e.dtype]
  let kbuf := Mem.store kbuf (s.used + 3) (e.name ++ [0])
  ⟨s.off + 1, kbuf, s.used + reclen⟩

/-- The loop of `f_getdents`, for `fuel` rounds at most: the value of the call and the state that
it leaves. -/
def getdentsLoop (readdir : Readdir) (buflen : ℕ) : ℕ → State → ℤ × State
  | 0, s => (s.used, s)
  | fuel + 1, s =>
    if s.used < buflen then
      match readdir (s.off % 2 ^ 32) with -- the index is an `unsigned`
      | .error err => if err = ENOENT then (s.used, s) else (-err, s)
      | .ok e =>
        if s.used + uxDirentLen e.name > buflen then (s.used, s) -- the cookie is not consumed
        else getdentsLoop readdir buflen fuel (s.emit e)
    else (s.used, s)

/-- `f_getdents` of a file with offset `off` into the buffer `kbuf`. A record takes a byte at
least, so `buflen` rounds are enough. -/
def fGetdents (type : Vtype) (readdir : Readdir) (off : ℕ) (kbuf : ℕ → UInt8) (buflen : ℕ) :
    ℤ × State :=
  if type ≠ .dir then (-ENOTDIR, ⟨off, kbuf, 0⟩)
  else getdentsLoop readdir buflen buflen ⟨off, kbuf, 0⟩

/-! ## What the call is for -/

/-- The records in a string of bytes, by their lengths; a name ends at its NUL. -/
def decodeLoop : ℕ → List UInt8 → Option (List Dirent)
  | _, [] => some []
  | 0, _ :: _ => none
  | fuel + 1, bytes =>
    let reclen := (bytes.getD 0 0).toNat + 256 * (bytes.getD 1 0).toNat
    if reclen = 0 ∨ bytes.length < reclen then none
    else
      (decodeLoop fuel (bytes.drop reclen)).map fun es =>
        ⟨(bytes.drop 3).takeWhile (· ≠ 0), bytes.getD 2 0⟩ :: es

/-- The records in a string of bytes. -/
def decode (bytes : List UInt8) : Option (List Dirent) := decodeLoop bytes.length bytes

/-- `readdir` enumerates the entries of a directory: the entry of every index, `-ENOENT` once past
the end, and names that fit the buffer of the caller. -/
structure Lists (readdir : Readdir) (entries : List Dirent) : Prop where
  entry : ∀ i e, entries[i]? = some e → readdir i = .ok e
  past : ∀ i, entries.length ≤ i → i < 2 ^ 32 → readdir i = .error ENOENT
  fits : entries.length < 2 ^ 32
  name : ∀ e ∈ entries, e.name.length < VFS_NAME_MAX ∧ 0 ∉ e.name

/-- What one call gives out: its value and the buffer. -/
structure Reply where
  ret : ℤ
  kbuf : ℕ → UInt8

/-- The records of a reply. -/
def Reply.bytes (r : Reply) : List UInt8 := Mem.slice r.kbuf 0 r.ret.toNat

/-- The calls on one open directory, each with a buffer: the replies, and the offset at the end. -/
def calls (readdir : Readdir) : ℕ → List ((ℕ → UInt8) × ℕ) → List Reply × ℕ
  | off, [] => ([], off)
  | off, (kbuf, buflen) :: rest =>
    let (ret, s) := fGetdents .dir readdir off kbuf buflen
    let (replies, off) := calls readdir s.off rest
    (⟨ret, s.kbuf⟩ :: replies, off)

/-- Every buffer is large enough for the record that comes next, if there is one. -/
def LargeEnough (readdir : Readdir) (entries : List Dirent) :
    ℕ → List ((ℕ → UInt8) × ℕ) → Prop
  | _, [] => True
  | off, (kbuf, buflen) :: rest =>
    (∀ e ∈ entries[off]?, uxDirentLen e.name ≤ buflen) ∧
      LargeEnough readdir entries (fGetdents .dir readdir off kbuf buflen).2.off rest

/-- `d_type` of a ramfs node -/
def dtypeOf : Vtype → UInt8
  | .dir => DT_DIR
  | .file => DT_REG

/-- `vfs_readdir_at` on a ramfs directory -/
def ramfsDir (s : Ramfs.Fs) (dir : Ramfs.ShellId) : Readdir := fun idx =>
  match Ramfs.ramfsReaddir s dir idx with
  | some (name, type) => .ok ⟨name, dtypeOf type⟩
  | none => .error ENOENT

end MobilePhoneOs.Getdents
