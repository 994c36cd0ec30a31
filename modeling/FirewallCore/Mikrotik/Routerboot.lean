import FirewallCore.Lib.Checked

/-!
The data of RouterBoot on MikroTik flash (`drivers/platform/mikrotik/routerboot.c`).

Configuration data is a list of tag nodes. A node is a word of the processor with the
identification of its tag in the low half and the length of the payload in the high half; the
payload follows, and the next node is aligned to words behind it.
-/

namespace FirewallCore.Mikrotik

open FirewallCore.Lib

/-- The error numbers. Codes of `lzo1x_decompress_safe` are without their sign. -/
inductive Errno where
  | enoent
  | eio
  | eacces
  | enodev
  | einval
  | efbig
  | enospc
  | espipe
  | enodata
  | eoverflow
  | ebadmsg
  | enobufs
  | eopnotsupp
  | lzo (code : Nat)
  /-- What the flash driver returns. -/
  | mtd (code : Nat)
  deriving DecidableEq, Repr

/-! ### Looking for a tag -/

/-- `ALIGN` of a length to words, in a `u16`. -/
def alignU16 (len : Nat) : Nat := (len + 3) / 4 * 4 % 2 ^ 16

/-- The loop of `routerboot_tag_find`, from a position on. What may be read starts with the
buffer. -/
def tagFindFrom (e : Endian) (buf : List UInt8) (buflen tagId pos : Nat) :
    Checked Errno (Nat × Nat) :=
  if pos < buflen then
    match readWord e buf pos with
    | .error fault => .error fault
    | .ok node =>
      let id := node % 2 ^ 16
      let len := node / 2 ^ 16
      if node = 0 then .error (.error .enoent)
      else if tagId = id then
        if buflen ≤ pos + 4 then .error (.error .enoent) else .ok ((pos + 4) % 2 ^ 16, len)
      else tagFindFrom e buf buflen tagId (pos + 4 + alignU16 len)
  else .error (.error .enoent)
termination_by buflen - pos

/-- `routerboot_tag_find`: the offset of the payload and its length. -/
def routerbootTagFind (e : Endian) (buf : List UInt8) (buflen tagId : Nat) :
    Checked Errno (Nat × Nat) :=
  if tagId = 0 then .error (.error .einval) else tagFindFrom e buf buflen tagId 0

/-! ### Run lengths -/

/-- The loop of `routerboot_rle_decode`, for the length that is left. What may be read starts with
the input. -/
def rleDecodeFrom (outlen inlen : Nat) (input out : List UInt8) : Checked Errno (List UInt8) :=
  if inlen < 2 then .ok out
  else
    match input with
    | [] => .error .outside
    | run :: input =>
      if 128 ≤ run.toNat then
        let run := 256 - run.toNat
        if inlen - 1 < run then .error (.error .enospc)
        else if outlen < out.length + run then .error (.error .enospc)
        else if input.length < run then .error .outside
        else rleDecodeFrom outlen (inlen - 1 - run) (input.drop run) (out ++ input.take run)
      else
        match input with
        | [] => .error .outside
        | byte :: input =>
          if outlen < out.length + run.toNat then .error (.error .enospc)
          else rleDecodeFrom outlen (inlen - 2) input (out ++ List.replicate run.toNat byte)
termination_by inlen

/-- `routerboot_rle_decode`: the output, where it returns 0. -/
def routerbootRleDecode (input : List UInt8) (inlen outlen : Nat) : Checked Errno (List UInt8) :=
  if inlen < 2 then .error (.error .einval) else rleDecodeFrom outlen inlen input []

end FirewallCore.Mikrotik
