import MobilePhoneOs.Lib.Word

/-!
# A partition behind the block layer (`drivers/block.c`)

The bytes of one partition, its size in sectors, and the outcome of the transfers to come:
`none` is a transfer that succeeds, `some k` one that the driver fails after `k` sectors.
Once the schedule is used up every transfer succeeds.
-/

namespace MobilePhoneOs.Fs

open Mem

/-- `BLK_SECTOR_SIZE` -/
def BLK_SECTOR_SIZE : ℕ := 512

/-- The error codes of the file systems; `dev` is the `-1` of the block layer. -/
inductive Errno
  | dev
  | eio
  | enospc
  | efbig
  | einval
  | enoent
  | eexist
  | enotdir
  | eisdir
  | enotempty
  | enametoolong
  | enomem
deriving DecidableEq, Repr

/-- One partition. -/
structure Dev where
  data : ℕ → UInt8
  nsect : ℕ
  faults : List (Option ℕ)

namespace Dev

/-- The bytes from sector `sect` on. -/
def view (d : Dev) (sect : ℕ) : ℕ → UInt8 := fun i => d.data (sect * BLK_SECTOR_SIZE + i)

/-- The partition after `n` sectors have been overwritten. -/
def put (d : Dev) (sect n : ℕ) (buf : ℕ → UInt8) : Dev :=
  { d with data := copy d.data (sect * BLK_SECTOR_SIZE) (n * BLK_SECTOR_SIZE) buf }

/-- `block_read` into a buffer. -/
def read (d : Dev) (sect : ℕ) : Except Errno (ℕ → UInt8) × Dev :=
  match d.faults with
  | [] => (.ok (d.view sect), d)
  | none :: fs => (.ok (d.view sect), { d with faults := fs })
  | some _ :: fs => (.error .dev, { d with faults := fs })

/-- `block_write` of `n` sectors. -/
def write (d : Dev) (sect n : ℕ) (buf : ℕ → UInt8) : Except Errno Unit × Dev :=
  match d.faults with
  | [] => (.ok (), d.put sect n buf)
  | none :: fs => (.ok (), { d.put sect n buf with faults := fs })
  | some k :: fs => (.error .dev, { d.put sect (min k n) buf with faults := fs })

end Dev
end MobilePhoneOs.Fs
